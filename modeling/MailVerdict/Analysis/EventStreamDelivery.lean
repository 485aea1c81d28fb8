import MailVerdict.Analysis.EventRingReads

/-!
# What an open stream hands its client

`Delivers` is what a client may rely on: frames in increasing id order, of its own
scope, and nothing outstanding once the stream waits with its waiter unset. It
holds along every run whose live reads meet `KeepsUp`.

The invariant (`StreamInv`) accounts for each event of the scope: the client
received it or was told to drop everything up to it, a frame still to be handed
over will do so, or it lies behind all of these and the next read finds it.
-/

namespace MailVerdict.Analysis.EventStreamDelivery

open MailVerdict.Computation Model.EventStream
open Analysis.EventRingReads

variable {s : State} {e : Event} {rest : List Event} {last : ℕ}

/-! ## The promise -/

def frameIds (frames : List Frame) : List ℕ := frames.filterMap Frame.id

/-- The client was handed the event, or a frame telling it to drop everything up
to an id at or above the event's. -/
def Received (s : State) (e : Event) : Prop :=
  e.frame ∈ s.frames ∨ ∃ f ∈ s.frames, f.Announces ∧ ∃ i ∈ f.id, e.id ≤ i

instance (s : State) (e : Event) : Decidable (Received s e) :=
  inferInstanceAs (Decidable (_ ∨ ∃ f ∈ s.frames, f.Announces ∧ ∃ i ∈ f.id, e.id ≤ i))

def Parked (s : State) : Prop := ∃ last, s.pc = .waiting last ∧ s.waiterSet = false

structure Delivers (s : State) : Prop where
  increasing : (frameIds s.frames).Pairwise (· < ·)
  own : ∀ f ∈ s.frames, f.id ≠ none → f.Announces ∨
    ∃ e ∈ s.history, inScope s.accountId e.accountId ∧ e.frame = f
  complete : Parked s → ∀ e ∈ s.history, inScope s.accountId e.accountId → s.since < e.id →
    Received s e

/-- The condition on one step: a read of the live loop finds the ring readable
from `last_seen` on. -/
def KeepsUp (s : State) : Label → Prop
  | .resume =>
    match s.pc with
    | .loopHead last | .waiting last => Readable s.ring s.history last s.accountId
    | _ => True
  | _ => True

instance (s : State) : (l : Label) → Decidable (KeepsUp s l)
  | .resume => by
      unfold KeepsUp
      cases s.pc <;> infer_instance
  | .add _ _ _ | .timeout | .disconnect => inferInstanceAs (Decidable True)

/-! ## The invariant -/

/-- The frames so far, the events still to be handed over, and the id the next
read starts from account for every event of the scope. -/
structure Cursor (s : State) (rest : List Event) (last : ℕ) : Prop where
  increasing : BoundedLog.Increasing Event.id rest
  scope : ∀ e ∈ rest, (e ∈ s.history ∧ inScope s.accountId e.accountId) ∧ s.since < e.id
  below : ∀ i ∈ frameIds s.frames, i ≤ last ∧ ∀ e ∈ rest, i < e.id
  since_le : s.since ≤ last
  le_seq : last ≤ s.ring.seq
  accounted : ∀ e ∈ s.history, inScope s.accountId e.accountId → s.since < e.id →
    Received s e ∨ (∃ x ∈ rest, Covers x e) ∨ (last < e.id ∧ ∀ x ∈ rest, x.id < e.id)

def AtPc (s : State) : Prop :=
  match s.pc with
  | .created _ => s.frames = [] ∧ s.since = 0
  | .opening rest last => Cursor s rest last ∧ ∀ e ∈ rest, e.id ≤ last
  | .handing rest last => Cursor s rest last
  | .loopHead last | .pinged last => Cursor s [] last
  | .waiting last => Cursor s [] last ∧ (s.waiterSet = false →
      ∀ e ∈ s.history, inScope s.accountId e.accountId → s.since < e.id → Received s e)
  | .closed => True

structure StreamInv (s : State) : Prop where
  ring : RingInv s.ring s.history
  increasing : (frameIds s.frames).Pairwise (· < ·)
  own : ∀ f ∈ s.frames, f.id ≠ none → f.Announces ∨
    ∃ e ∈ s.history, inScope s.accountId e.accountId ∧ e.frame = f
  atPc : AtPc s

theorem StreamInv.delivers (h : StreamInv s) : Delivers s where
  increasing := h.increasing
  own := h.own
  complete := by
    rintro ⟨last, hpc, hwaiter⟩
    have hat := h.atPc
    simp only [AtPc, hpc] at hat
    exact hat.2 hwaiter

/-! ## Frames -/

theorem frameIds_concat (frames : List Frame) (f : Frame) :
    frameIds (frames ++ [f]) = frameIds frames ++ f.id.toList := by
  unfold frameIds
  rw [List.filterMap_append]
  cases hf : f.id <;> simp [hf]

theorem Received.mono {t : State} (h : Received s e)
    (hsub : ∀ f ∈ s.frames, f ∈ t.frames) : Received t e := by
  rcases h with h | ⟨f, hf, ha, i, hi, hle⟩
  · exact .inl (hsub _ h)
  · exact .inr ⟨f, hsub f hf, ha, i, hi, hle⟩

theorem received_of_covers {x : Event} (hx : x.frame ∈ s.frames)
    (h : Covers x e) : Received s e := by
  rcases h with rfl | ⟨ha, hle⟩
  · exact .inl hx
  · exact .inr ⟨x.frame, hx, ha, x.id, rfl, hle⟩

theorem frames_concat (hinc : (frameIds s.frames).Pairwise (· < ·))
    (hbelow : ∀ i ∈ frameIds s.frames, i < e.id) :
    (frameIds (s.frames ++ [e.frame])).Pairwise (· < ·) := by
  rw [frameIds_concat, List.pairwise_append]
  refine ⟨hinc, List.pairwise_singleton _ _, ?_⟩
  intro i hi j hj
  have hj' : j = e.id := by simpa [Event.frame] using hj
  exact hj' ▸ hbelow i hi

theorem own_concat (hown : ∀ f ∈ s.frames, f.id ≠ none → f.Announces ∨
      ∃ e ∈ s.history, inScope s.accountId e.accountId ∧ e.frame = f)
    (he : e ∈ s.history ∧ inScope s.accountId e.accountId) :
    ∀ f ∈ s.frames ++ [e.frame], f.id ≠ none → f.Announces ∨
      ∃ e ∈ s.history, inScope s.accountId e.accountId ∧ e.frame = f := by
  intro f hf hid
  rcases List.mem_append.1 hf with hf | hf
  · exact hown f hf hid
  · rw [List.mem_singleton] at hf
    exact .inr ⟨e, he.1, he.2, hf.symm⟩

/-! ## Handing over -/

/-- **Handing over one event** moves the cursor past it. The next read starts at
the event's id in the live loop and stays where the replay put it before. -/
theorem Cursor.hand {next : ℕ}
    (h : Cursor s (e :: rest) last) (he : e.id ≤ next) (hnext : next = last ∨ next = e.id)
    (hseq : next ≤ s.ring.seq) (pc : Pc) :
    Cursor { s with frames := s.frames ++ [e.frame], pc := pc } rest next := by
  obtain ⟨hlt, hrest⟩ := List.pairwise_cons.1 h.increasing
  have hlast : ∀ i ∈ frameIds s.frames, i < e.id :=
    fun i hi => (h.below i hi).2 e List.mem_cons_self
  refine ⟨hrest, fun x hx => h.scope x (List.mem_cons_of_mem e hx), ?_, ?_, hseq, ?_⟩
  · intro i hi
    simp only [frameIds_concat, Event.frame, Option.toList_some, List.mem_append,
      List.mem_singleton] at hi
    rcases hi with hi | rfl
    · have hie := hlast i hi
      exact ⟨by omega, fun x hx => (h.below i hi).2 x (List.mem_cons_of_mem e hx)⟩
    · exact ⟨he, fun x hx => hlt x hx⟩
  · have hsince := h.since_le
    show s.since ≤ next
    rcases hnext with rfl | rfl
    · exact hsince
    · exact (h.scope e List.mem_cons_self).2.le
  · intro x hx hscope hsince
    rcases h.accounted x hx hscope hsince with hrec | ⟨y, hy, hcov⟩ | ⟨hlt', hbefore⟩
    · exact .inl (hrec.mono fun f hf => List.mem_append_left _ hf)
    · rcases List.mem_cons.1 hy with rfl | hy
      · exact .inl (received_of_covers (List.mem_append_right _ (List.mem_singleton_self _)) hcov)
      · exact .inr (.inl ⟨y, hy, hcov⟩)
    · have hex := hbefore e List.mem_cons_self
      refine .inr (.inr ⟨?_, fun y hy => hbefore y (List.mem_cons_of_mem e hy)⟩)
      rcases hnext with rfl | rfl <;> omega

theorem openNext_inv
    (hring : RingInv s.ring s.history) (hinc : (frameIds s.frames).Pairwise (· < ·))
    (hown : ∀ f ∈ s.frames, f.id ≠ none → f.Announces ∨
      ∃ e ∈ s.history, inScope s.accountId e.accountId ∧ e.frame = f)
    (hc : Cursor s rest last) (hle : ∀ e ∈ rest, e.id ≤ last) :
    StreamInv (openNext s rest last) := by
  cases rest with
  | nil =>
    exact ⟨hring, hinc, hown, ⟨hc.increasing, hc.scope, hc.below, hc.since_le, hc.le_seq,
      hc.accounted⟩⟩
  | cons e rest =>
    have hbelow : ∀ i ∈ frameIds s.frames, i < e.id :=
      fun i hi => (hc.below i hi).2 e List.mem_cons_self
    refine ⟨hring, frames_concat hinc hbelow,
      own_concat hown (hc.scope e List.mem_cons_self).1, ?_⟩
    show Cursor _ rest last ∧ _
    exact ⟨hc.hand (hle e List.mem_cons_self) (.inl rfl) hc.le_seq _,
      fun x hx => hle x (List.mem_cons_of_mem e hx)⟩

theorem handNext_inv
    (hring : RingInv s.ring s.history) (hinc : (frameIds s.frames).Pairwise (· < ·))
    (hown : ∀ f ∈ s.frames, f.id ≠ none → f.Announces ∨
      ∃ e ∈ s.history, inScope s.accountId e.accountId ∧ e.frame = f)
    (hc : Cursor s rest last) : StreamInv (handNext s rest last) := by
  cases rest with
  | nil =>
    exact ⟨hring, hinc, hown, ⟨hc.increasing, hc.scope, hc.below, hc.since_le, hc.le_seq,
      hc.accounted⟩⟩
  | cons e rest =>
    have hmem := (hc.scope e List.mem_cons_self).1
    have hbelow : ∀ i ∈ frameIds s.frames, i < e.id :=
      fun i hi => (hc.below i hi).2 e List.mem_cons_self
    refine ⟨hring, frames_concat hinc hbelow, own_concat hown hmem, ?_⟩
    show Cursor _ rest e.id
    exact hc.hand (le_refl _) (.inr rfl) (hring.le_seq e hmem.1) _

/-- **A read that keeps up** accounts for everything by the events it returns. -/
theorem Cursor.read (hring : RingInv s.ring s.history)
    (hc : Cursor s [] last) (hread : Readable s.ring s.history last s.accountId) :
    Cursor s (s.ring.replayFrom last s.accountId) last ∧
    (∀ e ∈ s.history, inScope s.accountId e.accountId → s.since < e.id →
      Received s e ∨ ∃ x ∈ s.ring.replayFrom last s.accountId, Covers x e) := by
  have hcovered : ∀ e ∈ s.history, inScope s.accountId e.accountId → s.since < e.id →
      Received s e ∨ ∃ x ∈ s.ring.replayFrom last s.accountId, Covers x e := by
    intro e he hscope hsince
    rcases hc.accounted e he hscope hsince with hrec | ⟨x, hx, -⟩ | ⟨hlt, -⟩
    · exact .inl hrec
    · simp at hx
    · exact .inr (hring.covered_of_readable hread he hscope hlt)
  refine ⟨⟨hring.replayFrom_increasing _ _, ?_, ?_, hc.since_le, hc.le_seq, ?_⟩, hcovered⟩
  · intro e he
    obtain ⟨hhist, hscope, hlt, -⟩ := hring.mem_replayFrom he
    exact ⟨⟨hhist, hscope⟩, lt_of_le_of_lt hc.since_le hlt⟩
  · intro i hi
    have hle := (hc.below i hi).1
    refine ⟨hle, fun e he => ?_⟩
    have := (hring.mem_replayFrom he).2.2.1
    omega
  · intro e he hscope hsince
    rcases hcovered e he hscope hsince with h | h
    · exact .inl h
    · exact .inr (.inl h)

theorem poll_inv (h : StreamInv s) (hc : Cursor s [] last)
    (hread : Readable s.ring s.history last s.accountId) : StreamInv (poll s last) := by
  obtain ⟨hcur, hcovered⟩ := hc.read h.ring hread
  unfold poll
  simp only
  split
  · rename_i hnil
    refine ⟨h.ring, h.increasing, h.own, ?_⟩
    refine ⟨⟨hc.increasing, hc.scope, hc.below, hc.since_le, hc.le_seq, hc.accounted⟩, ?_⟩
    intro _ e he hscope hsince
    rcases hcovered e he hscope hsince with hrec | ⟨x, hx, -⟩
    · exact hrec
    · simp [hnil] at hx
  · apply handNext_inv (s := { s with waiterSet := false }) h.ring h.increasing h.own
    exact ⟨hcur.increasing, hcur.scope, hcur.below, hcur.since_le, hcur.le_seq, hcur.accounted⟩

theorem announce_inv (h : StreamInv s) (hframes : s.frames = []) {eventType : String}
    (ha : eventType = "resync" ∨ eventType = "connected") :
    StreamInv (announce s eventType) := by
  refine ⟨h.ring, ?_, ?_, ?_⟩
  · simp [announce, hframes, frameIds]
  · intro f hf _
    simp only [announce, hframes, List.nil_append, List.mem_singleton] at hf
    exact .inl (hf ▸ ha)
  · refine ⟨⟨List.Pairwise.nil, by simp, ?_, le_refl _, le_refl _, ?_⟩, by simp⟩
    · intro i hi
      have : i = s.ring.seq := by simpa [announce, hframes, frameIds] using hi
      exact ⟨this.le, by simp⟩
    · intro e he _ hsince
      have hseq : e.id ≤ s.ring.seq := h.ring.le_seq e he
      have hlt : s.ring.seq < e.id := hsince
      omega

theorem openStream_inv (h : StreamInv s) (hframes : s.frames = [])
    (lastEventId : Option ℤ) : StreamInv (openStream s lastEventId) := by
  cases lastEventId with
  | none => exact announce_inv h hframes (.inr rfl)
  | some last =>
    simp only [openStream]
    split
    · rename_i hcond
      obtain ⟨-, hseq, hafter⟩ := hcond
      have hlastOf : ∀ e ∈ s.ring.replayFrom last.toNat s.accountId,
          e.id ≤ lastOf (s.ring.replayFrom last.toNat s.accountId) last.toNat := by
        intro e he
        unfold lastOf
        cases hlast : (s.ring.replayFrom last.toNat s.accountId).getLast? with
        | none =>
          rw [List.getLast?_eq_none_iff] at hlast
          simp [hlast] at he
        | some o => exact (h.ring.replayFrom_increasing _ _).le_getLast hlast he
      have hfrom : last.toNat ≤ lastOf (s.ring.replayFrom last.toNat s.accountId) last.toNat ∧
          lastOf (s.ring.replayFrom last.toNat s.accountId) last.toNat ≤ s.ring.seq := by
        unfold lastOf
        cases hlast : (s.ring.replayFrom last.toNat s.accountId).getLast? with
        | none =>
          show last.toNat ≤ last.toNat ∧ last.toNat ≤ s.ring.seq
          omega
        | some o =>
          have hread := h.ring.mem_replayFrom (List.mem_of_getLast? hlast)
          exact ⟨hread.2.2.1.le, h.ring.le_seq o hread.1⟩
      apply openNext_inv (s := { s with since := last.toNat }) h.ring h.increasing h.own
        ⟨h.ring.replayFrom_increasing _ _, ?_, ?_, hfrom.1, hfrom.2, ?_⟩ hlastOf
      · intro e he
        obtain ⟨hhist, hscope, hlt, -⟩ := h.ring.mem_replayFrom he
        exact ⟨⟨hhist, hscope⟩, hlt⟩
      · intro i hi
        simp [hframes, frameIds] at hi
      · intro e he hscope hsince
        have hmem := h.ring.mem_replayFrom_of_hasEventsAfter hafter he hscope hsince
        exact .inr (.inl ⟨e, hmem, .inl rfl⟩)
    · exact announce_inv h hframes (.inl rfl)

/-! ## Adds -/

theorem Cursor.add {t : State}
    (hring : RingInv s.ring s.history) (hc : Cursor s rest last) (hid : e.id = s.ring.seq + 1)
    (hseq : s.ring.seq ≤ t.ring.seq) (hhist : t.history = s.history ++ [e])
    (hframes : t.frames = s.frames) (hacc : t.accountId = s.accountId)
    (hsince : t.since = s.since) : Cursor t rest last := by
  refine ⟨hc.increasing, ?_, ?_, ?_, ?_, ?_⟩
  · intro x hx
    obtain ⟨⟨hmem, hscope⟩, hlt⟩ := hc.scope x hx
    rw [hhist, hacc, hsince]
    exact ⟨⟨List.mem_append_left _ hmem, hscope⟩, hlt⟩
  · rw [hframes]
    exact hc.below
  · rw [hsince]
    exact hc.since_le
  · exact hc.le_seq.trans hseq
  · intro x hx hscope hlt
    rw [hhist] at hx
    rw [hacc] at hscope
    rw [hsince] at hlt
    rcases List.mem_append.1 hx with hx | hx
    · rcases hc.accounted x hx hscope hlt with hrec | hrest | hbehind
      · exact .inl (hrec.mono fun f hf => hframes ▸ hf)
      · exact .inr (.inl hrest)
      · exact .inr (.inr hbehind)
    · rw [List.mem_singleton] at hx
      subst hx
      have hle := hc.le_seq
      refine .inr (.inr ⟨by omega, fun y hy => ?_⟩)
      have := hring.le_seq y (hc.scope y hy).1.1
      omega

theorem add_inv {ring : EventRing} {a : AccountId} {eventType data : String} {n : ℕ}
    (h : StreamInv s) (hadd : s.ring.add a eventType data = .ok (ring, n)) :
    StreamInv { s with
      ring := ring
      waiterSet := s.waiterSet || decide (inScope s.accountId a)
      history := s.history ++ [s.ring.nextEvent a eventType data] } := by
  have hseq := (add_ok hadd).1
  refine ⟨h.ring.add hadd, h.increasing, ?_, ?_⟩
  · intro f hf hid
    rcases h.own f hf hid with ha | ⟨e, he, hscope, hframe⟩
    · exact .inl ha
    · exact .inr ⟨e, List.mem_append_left _ he, hscope, hframe⟩
  · have hat := h.atPc
    have hadvance : ∀ {rest : List Event} {last : ℕ} (pc : Pc), Cursor s rest last →
        Cursor { s with
          ring := ring
          waiterSet := s.waiterSet || decide (inScope s.accountId a)
          pc := pc
          history := s.history ++ [s.ring.nextEvent a eventType data] } rest last :=
      fun _ hc => hc.add h.ring (e := s.ring.nextEvent a eventType data) rfl (by simp [hseq]) rfl rfl
        rfl rfl
    unfold AtPc at hat ⊢
    simp only
    cases hpc : s.pc with
    | created last =>
      simp only [hpc] at hat
      exact hat
    | opening rest last =>
      simp only [hpc] at hat
      exact ⟨hadvance _ hat.1, hat.2⟩
    | handing rest last | loopHead last | pinged last =>
      simp only [hpc] at hat
      exact hadvance _ hat
    | closed => exact trivial
    | waiting last =>
      simp only [hpc] at hat
      refine ⟨hadvance _ hat.1, fun hwaiter e he hscope hsince => ?_⟩
      -- a waiter still unset means the event is of another account
      rw [Bool.or_eq_false_iff, decide_eq_false_iff_not] at hwaiter
      rcases List.mem_append.1 he with he | he
      · exact (hat.2 hwaiter.1 e he hscope hsince).mono fun f hf => hf
      · rw [List.mem_singleton] at he
        subst he
        exact absurd hscope hwaiter.2

/-! ## Runs -/

/-- **The step lemma**. -/
theorem streamInv_step {t : State} {l : Label} (h : StreamInv s) (hk : KeepsUp s l)
    (hst : step s l = some t) : StreamInv t := by
  have hat := h.atPc
  cases l with
  | add a eventType data =>
    simp only [step] at hst
    split at hst
    · cases hst
      exact h
    · rename_i hadd
      cases hst
      exact add_inv h hadd
  | disconnect =>
    cases hst
    exact ⟨h.ring, h.increasing, h.own, trivial⟩
  | timeout =>
    simp only [step] at hst
    split at hst
    · rename_i last hpc
      cases hst
      simp only [AtPc, hpc] at hat
      have hids : frameIds (s.frames ++ [pingFrame]) = frameIds s.frames := by
        rw [frameIds_concat]
        simp [pingFrame]
      refine ⟨h.ring, ?_, ?_, ?_⟩
      · show (frameIds (s.frames ++ [pingFrame])).Pairwise (· < ·)
        rw [hids]
        exact h.increasing
      · intro f hf hid
        rcases List.mem_append.1 hf with hf | hf
        · exact h.own f hf hid
        · rw [List.mem_singleton] at hf
          subst hf
          exact absurd rfl hid
      · have hc := hat.1
        refine ⟨hc.increasing, hc.scope, ?_, hc.since_le, hc.le_seq, ?_⟩
        · show ∀ i ∈ frameIds (s.frames ++ [pingFrame]), _
          rw [hids]
          exact hc.below
        · intro e he hscope hsince
          rcases hc.accounted e he hscope hsince with hrec | hrest | hbehind
          · exact .inl (hrec.mono fun f hf => List.mem_append_left _ hf)
          · exact .inr (.inl hrest)
          · exact .inr (.inr hbehind)
    · cases hst
  | resume =>
    simp only [step] at hst
    cases hpc : s.pc with
    | created last =>
      simp only [hpc, Option.some.injEq] at hst
      simp only [AtPc, hpc] at hat
      exact hst ▸ openStream_inv h hat.1 last
    | opening rest last =>
      simp only [hpc, Option.some.injEq] at hst
      simp only [AtPc, hpc] at hat
      exact hst ▸ openNext_inv h.ring h.increasing h.own hat.1 hat.2
    | loopHead last =>
      simp only [hpc, Option.some.injEq] at hst
      simp only [AtPc, hpc] at hat
      simp only [KeepsUp, hpc] at hk
      exact hst ▸ poll_inv h hat hk
    | waiting last =>
      simp only [hpc] at hst
      simp only [AtPc, hpc] at hat
      simp only [KeepsUp, hpc] at hk
      split at hst
      · cases hst
        exact handNext_inv h.ring h.increasing h.own (hat.1.read h.ring hk).1
      · cases hst
    | handing rest last =>
      simp only [hpc, Option.some.injEq] at hst
      simp only [AtPc, hpc] at hat
      exact hst ▸ handNext_inv h.ring h.increasing h.own hat
    | pinged last =>
      simp only [hpc, Option.some.injEq] at hst
      simp only [AtPc, hpc] at hat
      subst hst
      exact ⟨h.ring, h.increasing, h.own, ⟨hat.increasing, hat.scope, hat.below, hat.since_le,
        hat.le_seq, hat.accounted⟩⟩
    | closed => simp [hpc] at hst

theorem streamInv_start (n : ℕ) (hn : 0 < n) (filter : Option AccountId)
    (lastEventId : Option ℤ) : StreamInv (start n hn filter lastEventId) where
  ring := ringInv_empty n hn
  increasing := List.Pairwise.nil
  own := by simp [start]
  atPc := ⟨rfl, rfl⟩

/-- **The run lemma**. -/
theorem streamInv_reachable (h : system.Reachable KeepsUp s) : StreamInv s := by
  apply h.invariant (I := StreamInv)
  · rintro s ⟨n, hn, filter, lastEventId, rfl⟩
    exact streamInv_start n hn filter lastEventId
  · exact fun s l t hs hk hst => streamInv_step hs hk hst

end MailVerdict.Analysis.EventStreamDelivery
