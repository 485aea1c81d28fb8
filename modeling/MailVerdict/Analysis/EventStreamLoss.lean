import MailVerdict.Analysis.EventStreamDelivery

/-!
# Where an open stream loses events

Left alone, a stream that is not closed comes to wait with its waiter unset: it
hands over what it holds, reads once more and finds nothing. So an event that no
later read returns is missing there for good, and each live read outside `KeepsUp`
makes one (`Lost`). The condition under which the stream delivers is therefore
the exact one.
-/

namespace MailVerdict.Analysis.EventStreamLoss

open MailVerdict.Computation Model.EventStream
open Analysis.EventRingReads Analysis.EventStreamDelivery

variable {s : State} {last : ℕ} {e : Event}

def resumes : State → Label → Prop := fun _ l => l = .resume

/-! ## The stream comes to rest -/

theorem hand_all (rest : List Event) (s : State) (last : ℕ) (hpc : s.pc = .handing rest last) :
    ∃ t, system.Run resumes s t ∧ t.pc = .loopHead (lastOf rest last) ∧ t.ring = s.ring ∧
      t.history = s.history ∧ t.accountId = s.accountId := by
  induction rest generalizing s last with
  | nil =>
    have hst : system.step s .resume = some (handNext s [] last) := by
      simp [system, step, hpc]
    exact ⟨_, .step .refl rfl hst, rfl, rfl, rfl, rfl⟩
  | cons e rest ih =>
    have hst : system.step s .resume = some (handNext s (e :: rest) last) := by
      simp [system, step, hpc]
    obtain ⟨t, hrun, ht, hring, hhist, hacc⟩ := ih (handNext s (e :: rest) last) e.id rfl
    rw [lastOf_cons]
    exact ⟨t, hrun.head rfl hst, ht, hring, hhist, hacc⟩

theorem open_all (rest : List Event) (s : State) (last : ℕ) (hpc : s.pc = .opening rest last) :
    ∃ t, system.Run resumes s t ∧ t.pc = .loopHead last ∧ t.ring = s.ring ∧
      t.history = s.history ∧ t.accountId = s.accountId := by
  induction rest generalizing s with
  | nil =>
    have hst : system.step s .resume = some (openNext s [] last) := by
      simp [system, step, hpc]
    exact ⟨_, .step .refl rfl hst, rfl, rfl, rfl, rfl⟩
  | cons e rest ih =>
    have hst : system.step s .resume = some (openNext s (e :: rest) last) := by
      simp [system, step, hpc]
    obtain ⟨t, hrun, ht, hring, hhist, hacc⟩ := ih (openNext s (e :: rest) last) rfl
    exact ⟨t, hrun.head rfl hst, ht, hring, hhist, hacc⟩

theorem park_of_empty (hpc : s.pc = .loopHead last)
    (hempty : s.ring.replayFrom last s.accountId = []) :
    ∃ t, system.Run resumes s t ∧ Parked t := by
  have hst : system.step s .resume = some { s with waiterSet := false, pc := .waiting last } := by
    simp [system, step, hpc, poll, hempty]
  exact ⟨_, .step .refl rfl hst, last, rfl, rfl⟩

theorem park_of_read (hring : RingInv s.ring s.history)
    (hne : s.ring.replayFrom last s.accountId ≠ []) :
    ∃ t, system.Run resumes (handNext s (s.ring.replayFrom last s.accountId) last) t ∧
      Parked t := by
  obtain ⟨e, rest, hread⟩ := List.exists_cons_of_ne_nil hne
  have hend := hring.replayFrom_lastOf hne
  rw [hread, lastOf_cons] at hend
  obtain ⟨t, hrun, hpc, htring, hthist, htacc⟩ :=
    hand_all rest (handNext s (e :: rest) last) e.id rfl
  have htend : t.ring.replayFrom (lastOf rest e.id) t.accountId = [] := by
    rw [htring, htacc]
    exact hend
  obtain ⟨u, hrun', hparked⟩ := park_of_empty hpc htend
  rw [hread]
  exact ⟨u, hrun.trans hrun', hparked⟩

theorem park_of_loopHead (hring : RingInv s.ring s.history)
    (hpc : s.pc = .loopHead last) : ∃ t, system.Run resumes s t ∧ Parked t := by
  by_cases hempty : s.ring.replayFrom last s.accountId = []
  · exact park_of_empty hpc hempty
  · obtain ⟨t, hrun, hparked⟩ :=
      park_of_read (s := { s with waiterSet := false }) hring hempty
    have hst : system.step s .resume =
        some (handNext { s with waiterSet := false } (s.ring.replayFrom last s.accountId) last) := by
      simp only [system, step, hpc, poll]
    exact ⟨t, hrun.head rfl hst, hparked⟩

/-- **A stream left alone comes to rest.** -/
theorem comes_to_rest (hring : RingInv s.ring s.history) (hopen : s.pc ≠ .closed) :
    ∃ t, system.Run resumes s t ∧ Parked t := by
  have after : ∀ {t : State} {last : ℕ}, system.Run resumes s t → t.pc = .loopHead last →
      t.ring = s.ring → t.history = s.history → ∃ u, system.Run resumes s u ∧ Parked u := by
    intro t last hrun hpc htring hthist
    obtain ⟨u, hrun', hparked⟩ := park_of_loopHead (by rw [htring, hthist]; exact hring) hpc
    exact ⟨u, hrun.trans hrun', hparked⟩
  have opened : ∀ {t : State} {rest : List Event} {last : ℕ}, system.step s .resume = some t →
      t.pc = .opening rest last → t.ring = s.ring → t.history = s.history →
      ∃ u, system.Run resumes s u ∧ Parked u := by
    intro t rest last hst hpc htring hthist
    obtain ⟨u, hrun, hpc', huring, huhist, -⟩ := open_all rest t last hpc
    exact after (hrun.head rfl hst) hpc' (huring.trans htring) (huhist.trans hthist)
  cases hpc : s.pc with
  | closed => exact absurd hpc hopen
  | loopHead last => exact park_of_loopHead hring hpc
  | opening rest last =>
    obtain ⟨t, hrun, hpc', htring, hthist, -⟩ := open_all rest s last hpc
    exact after hrun hpc' htring hthist
  | handing rest last =>
    obtain ⟨t, hrun, hpc', htring, hthist, -⟩ := hand_all rest s last hpc
    exact after hrun hpc' htring hthist
  | pinged last =>
    have hst : system.step s .resume = some { s with pc := .loopHead last } := by
      simp [system, step, hpc]
    exact after (.step .refl rfl hst) rfl rfl rfl
  | waiting last =>
    cases hwaiter : s.waiterSet with
    | false => exact ⟨s, .refl, last, hpc, hwaiter⟩
    | true =>
      have hst : system.step s .resume =
          some (handNext s (s.ring.replayFrom last s.accountId) last) := by
        simp [system, step, hpc, hwaiter]
      by_cases hempty : s.ring.replayFrom last s.accountId = []
      · rw [hempty] at hst
        exact after (.step .refl rfl hst) rfl rfl rfl
      · obtain ⟨t, hrun, hparked⟩ := park_of_read hring hempty
        exact ⟨t, hrun.head rfl hst, hparked⟩
  | created lastEventId =>
    have hst : system.step s .resume = some (openStream s lastEventId) := by
      simp [system, step, hpc]
    cases lastEventId with
    | none => exact opened hst rfl rfl rfl
    | some given =>
      simp only [openStream] at hst
      split at hst
      · cases hmissed : s.ring.replayFrom given.toNat s.accountId with
        | nil =>
          simp only [hmissed] at hst
          exact after (.step .refl rfl hst) rfl rfl rfl
        | cons e rest =>
          simp only [hmissed] at hst
          exact opened hst rfl rfl rfl
      · exact opened hst rfl rfl rfl

/-! ## Lost events -/

def Unread (s : State) (e : Event) : Prop :=
  match s.pc with
  | .handing rest last => (∀ x ∈ rest, x ∈ s.history ∧ ¬ Covers x e) ∧
      ∀ x ∈ s.ring.replayFrom (lastOf rest last) s.accountId, ¬ Covers x e
  | .loopHead last | .waiting last | .pinged last =>
    ∀ x ∈ s.ring.replayFrom last s.accountId, ¬ Covers x e
  | .created _ | .opening _ _ | .closed => False

/-- An event the client neither received nor will, unless more events are added. -/
structure Lost (s : State) (e : Event) : Prop where
  ring : RingInv s.ring s.history
  mem : e ∈ s.history
  scope : inScope s.accountId e.accountId
  since_lt : s.since < e.id
  unreceived : ¬ Received s e
  unread : Unread s e

theorem Lost.handNext {rest : List Event} (hring : RingInv s.ring s.history) (hmem : e ∈ s.history)
    (hscope : inScope s.accountId e.accountId) (hsince : s.since < e.id)
    (hun : ¬ Received s e) (hrest : ∀ x ∈ rest, x ∈ s.history ∧ ¬ Covers x e)
    (hnext : ∀ x ∈ s.ring.replayFrom (lastOf rest last) s.accountId, ¬ Covers x e) :
    Lost (handNext s rest last) e := by
  cases rest with
  | nil => exact ⟨hring, hmem, hscope, hsince, hun, hnext⟩
  | cons x rest =>
    refine ⟨hring, hmem, hscope, hsince, ?_, ?_⟩
    · obtain ⟨hx, hcov⟩ := hrest x List.mem_cons_self
      rintro (h | ⟨f, hf, ha, i, hi, hle⟩)
      · rcases List.mem_append.1 h with h | h
        · exact hun (.inl h)
        · rw [List.mem_singleton] at h
          have hid : x.id = e.id := by
            have := congrArg Frame.id h
            simpa [Event.frame] using this.symm
          exact hcov (.inl (hring.eq_of_id hx hmem hid))
      · rcases List.mem_append.1 hf with hf | hf
        · exact hun (.inr ⟨f, hf, ha, i, hi, hle⟩)
        · rw [List.mem_singleton] at hf
          subst hf
          have hi' : x.id = i := by simpa [Event.frame] using hi
          exact hcov (.inr ⟨ha, hi' ▸ hle⟩)
    · rw [lastOf_cons] at hnext
      exact ⟨fun y hy => hrest y (List.mem_cons_of_mem x hy), hnext⟩

theorem Lost.read (hring : RingInv s.ring s.history)
    (hmem : e ∈ s.history) (hscope : inScope s.accountId e.accountId) (hsince : s.since < e.id)
    (hun : ¬ Received s e)
    (hread : ∀ x ∈ s.ring.replayFrom last s.accountId, ¬ Covers x e) :
    Lost (Model.EventStream.handNext s (s.ring.replayFrom last s.accountId) last) e := by
  apply Lost.handNext hring hmem hscope hsince hun
  · exact fun x hx => ⟨(hring.mem_replayFrom hx).1, hread x hx⟩
  · exact fun x hx => hread x (hring.replayFrom_lastOf_subset last s.accountId hx)

theorem Lost.poll (hring : RingInv s.ring s.history)
    (hmem : e ∈ s.history) (hscope : inScope s.accountId e.accountId) (hsince : s.since < e.id)
    (hun : ¬ Received s e)
    (hread : ∀ x ∈ s.ring.replayFrom last s.accountId, ¬ Covers x e) :
    Lost (Model.EventStream.poll s last) e := by
  unfold Model.EventStream.poll
  simp only
  split
  · exact ⟨hring, hmem, hscope, hsince, hun, hread⟩
  · exact Lost.read (s := { s with waiterSet := false }) hring hmem hscope hsince hun hread

theorem Lost.resume {t : State} (h : Lost s e) (hst : step s .resume = some t) :
    Lost t e := by
  have hun := h.unread
  simp only [step] at hst
  cases hpc : s.pc with
  | created last | opening rest last | closed => simp [Unread, hpc] at hun
  | loopHead last =>
    simp only [hpc, Option.some.injEq] at hst
    simp only [Unread, hpc] at hun
    exact hst ▸ Lost.poll h.ring h.mem h.scope h.since_lt h.unreceived hun
  | waiting last =>
    simp only [hpc] at hst
    simp only [Unread, hpc] at hun
    split at hst
    · cases hst
      exact Lost.read h.ring h.mem h.scope h.since_lt h.unreceived hun
    · cases hst
  | handing rest last =>
    simp only [hpc, Option.some.injEq] at hst
    simp only [Unread, hpc] at hun
    exact hst ▸ Lost.handNext h.ring h.mem h.scope h.since_lt h.unreceived hun.1 hun.2
  | pinged last =>
    simp only [hpc, Option.some.injEq] at hst
    simp only [Unread, hpc] at hun
    subst hst
    exact ⟨h.ring, h.mem, h.scope, h.since_lt, h.unreceived, hun⟩

theorem Lost.not_delivers (h : Lost s e) :
    ∃ t, system.Run resumes s t ∧ ¬ Delivers t := by
  have hopen : s.pc ≠ .closed := by
    intro hpc
    have hun := h.unread
    simp [Unread, hpc] at hun
  obtain ⟨t, hrun, hparked⟩ := comes_to_rest h.ring hopen
  have hlost : Lost t e := by
    refine hrun.preserves (I := fun u => Lost u e) ?_ h
    rintro u l v hu rfl hst
    exact hu.resume hst
  exact ⟨t, hrun, fun hd =>
    hlost.unreceived (hd.complete hparked e hlost.mem hlost.scope hlost.since_lt)⟩

theorem not_received_of_lt (hc : Cursor s [] last) (hlt : last < e.id) : ¬ Received s e := by
  have hbelow : ∀ f ∈ s.frames, ∀ i ∈ f.id, i ≤ last := by
    intro f hf i hi
    exact (hc.below i (List.mem_filterMap.2 ⟨f, hf, hi⟩)).1
  rintro (h | ⟨f, hf, -, i, hi, hle⟩)
  · have := hbelow e.frame h e.id rfl
    omega
  · have := hbelow f hf i hi
    omega

/-- **A read that does not keep up loses an event.** -/
theorem loss_of_not_keepsUp {t : State} {l : Label} (h : StreamInv s) (hk : ¬ KeepsUp s l)
    (hst : step s l = some t) : ∃ u, system.Run resumes t u ∧ ¬ Delivers u := by
  have hat := h.atPc
  cases l with
  | add a eventType data => exact absurd trivial hk
  | timeout => exact absurd trivial hk
  | disconnect => exact absurd trivial hk
  | resume =>
    cases hpc : s.pc with
    | loopHead last =>
      simp only [KeepsUp, hpc] at hk
      simp only [AtPc, hpc] at hat
      simp only [step, hpc, Option.some.injEq] at hst
      obtain ⟨e, he, hscope, hlt, hread⟩ := h.ring.hidden_of_not_readable hk
      have hsince := lt_of_le_of_lt hat.since_le hlt
      have hlost := Lost.poll h.ring he hscope hsince (not_received_of_lt hat hlt) hread
      exact (hst ▸ hlost).not_delivers
    | waiting last =>
      simp only [KeepsUp, hpc] at hk
      simp only [AtPc, hpc] at hat
      simp only [step, hpc] at hst
      split at hst
      · cases hst
        obtain ⟨e, he, hscope, hlt, hread⟩ := h.ring.hidden_of_not_readable hk
        have hsince := lt_of_le_of_lt hat.1.since_le hlt
        exact (Lost.read h.ring he hscope hsince (not_received_of_lt hat.1 hlt)
          hread).not_delivers
      · cases hst
    | created last | opening rest last | handing rest last
    | pinged last | closed => simp [KeepsUp, hpc] at hk

/-! ## The condition is exact -/

/-- **Delivery while the reads keep up, loss when one does not.** While live reads find the ring
readable from `last_seen` on, the client receives its events once and in order and a stream left
alone comes to rest with nothing outstanding; after a first live read that does not, and with no
further event, one is lost. -/
theorem delivers_iff_reads_keep_up (s : State) (hs : system.Reachable KeepsUp s) :
    Delivers s ∧
    (s.pc ≠ .closed → ∃ t, system.Run resumes s t ∧ Parked t) ∧
    ∀ l t, system.step s l = some t → ¬ KeepsUp s l →
      ∃ u, system.Run resumes t u ∧ ¬ Delivers u := by
  have hinv := streamInv_reachable hs
  exact ⟨hinv.delivers, comes_to_rest hinv.ring, fun l t hst hk => loss_of_not_keepsUp hinv hk hst⟩

/-- A stream on two accounts, opened fresh, with an event handed over and one
arriving meanwhile. -/
def fastClient : List Label :=
  [.resume, .resume, .resume, .add 7 "mail.new" "a", .resume, .add 8 "mail.updated" "b", .resume,
    .resume, .resume, .resume]

theorem delivers_to_fast_client :
    ∃ s, system.exec (start 500 (by decide) none none) fastClient = some s ∧
      (Delivers s ∧
        (s.pc ≠ .closed → ∃ t, system.Run resumes s t ∧ Parked t) ∧
        ∀ l t, system.step s l = some t → ¬ KeepsUp s l →
          ∃ u, system.Run resumes t u ∧ ¬ Delivers u) :=
  ⟨_, rfl, delivers_iff_reads_keep_up _ (TransitionSystem.reachable_of_exec fastClient
    ⟨500, by decide, none, none, rfl⟩ (by decide) rfl)⟩

def earlyStream : List Label :=
  [.resume, .resume, .resume, .add 7 "mail.new" "a", .resume, .resume]

/-- A client that takes one frame while three more events are added. -/
def slowClient : List Label :=
  [.resume, .resume, .resume, .add 7 "mail.new" "a", .resume, .add 7 "mail.new" "b",
    .add 7 "mail.new" "c", .add 7 "mail.new" "d", .resume, .resume, .resume, .resume, .resume]

theorem not_delivers_of_outstanding (e : Event) (hparked : Parked s)
    (hmem : e ∈ s.history) (hscope : inScope s.accountId e.accountId) (hsince : s.since < e.id)
    (hun : ¬ Received s e) : ¬ Delivers s :=
  fun hd => hun (hd.complete hparked e hmem hscope hsince)

/-- The stream of an account whose ring was empty when it opened waits for ever beside its first
event, and a slow client of a ring of two gets the events around the one evicted meanwhile. -/
theorem early_stream_and_slow_client_lose_events :
    (∃ s, system.exec (start 500 (by decide) (some 7) none) earlyStream = some s ∧
      system.Reachable TransitionSystem.anyStep s ∧ ¬ Delivers s) ∧
    ∃ s, system.exec (start 2 (by decide) none none) slowClient = some s ∧
      system.Reachable TransitionSystem.anyStep s ∧ ¬ Delivers s := by
  constructor
  · refine ⟨_, rfl, TransitionSystem.reachable_of_exec_any earlyStream
      ⟨500, by decide, some 7, none, rfl⟩ rfl, ?_⟩
    exact not_delivers_of_outstanding ⟨1, 7, "mail.new", "a"⟩ ⟨0, rfl, rfl⟩ (by decide) rfl
      (by decide) (by decide)
  · refine ⟨_, rfl, TransitionSystem.reachable_of_exec_any slowClient
      ⟨2, by decide, none, none, rfl⟩ rfl, ?_⟩
    exact not_delivers_of_outstanding ⟨2, 7, "mail.new", "b"⟩ ⟨4, rfl, rfl⟩ (by decide) trivial
      (by decide) (by decide)

end MailVerdict.Analysis.EventStreamLoss
