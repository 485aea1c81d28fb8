import MailVerdict.Model.EventStream

/-!
# Reads of the event ring

Each account's ring is a bounded log of that account's events (`RingInv`). A read
returns events of the asked scope in id order, and it misses nothing when the
ring reaches back to the id it starts from, which is what `has_events_after`
asks. The weaker `Readable` is what a read needs to miss nothing the client could
not do without.
-/

namespace MailVerdict.Analysis.EventRingReads

open MailVerdict.Computation Model.EventStream

variable {a : AccountId} {e : Event} {last : ℕ} {filter : Option AccountId}

/-! ## The ring -/

structure RingInv (r : EventRing) (history : List Event) : Prop where
  increasing : BoundedLog.Increasing Event.id history
  le_seq : ∀ e ∈ history, e.id ≤ r.seq
  suffix : ∀ a, r.rings a <:+ history.filter fun e => decide (e.accountId = a)
  listed : ∀ a, r.rings a ≠ [] → a ∈ r.accounts
  kept : ∀ e ∈ history, r.rings e.accountId ≠ []
  nodup : r.accounts.Nodup

theorem ringInv_empty (n : ℕ) (h : 0 < n) : RingInv (.empty n h) [] where
  increasing := List.Pairwise.nil
  le_seq := by simp
  suffix := by simp [EventRing.empty]
  listed := by simp [EventRing.empty]
  kept := by simp
  nodup := List.nodup_nil

theorem add_ok {r ring : EventRing} {eventType data : String} {n : ℕ}
    (h : r.add a eventType data = .ok (ring, n)) :
    ring.seq = r.seq + 1 ∧
    ring.accounts = (if a ∈ r.accounts then r.accounts else r.accounts ++ [a]) ∧
    ring.rings = Function.update r.rings a
      (BoundedLog.push r.maxSize (r.rings a) (r.nextEvent a eventType data)) := by
  unfold EventRing.add at h
  split at h
  · cases h
  · cases h
    exact ⟨rfl, rfl, rfl⟩

/-- The ring holds the last events of its history after one more. -/
theorem RingInv.add {r ring : EventRing} {history : List Event}
    {eventType data : String} {n : ℕ} (hr : RingInv r history)
    (h : r.add a eventType data = .ok (ring, n)) :
    RingInv ring (history ++ [r.nextEvent a eventType data]) := by
  obtain ⟨hseq, haccounts, hrings⟩ := add_ok h
  have hpushed : r.nextEvent a eventType data ∈ ring.rings a := by
    rw [hrings, Function.update_self]
    exact BoundedLog.mem_push_self r.maxSize_pos _ _
  have hother : ∀ b, b ≠ a → ring.rings b = r.rings b := by
    intro b hb
    rw [hrings, Function.update_of_ne hb]
  refine ⟨?_, ?_, ?_, ?_, ?_, ?_⟩
  · apply hr.increasing.concat
    intro e he
    have := hr.le_seq e he
    show e.id < r.seq + 1
    omega
  · intro e he
    rw [hseq]
    rcases List.mem_append.1 he with he | he
    · have := hr.le_seq e he
      omega
    · rw [List.mem_singleton] at he
      subst he
      exact le_refl _
  · intro b
    rw [List.filter_append]
    by_cases hb : b = a
    · subst hb
      have hself : [r.nextEvent b eventType data].filter (fun e => decide (e.accountId = b)) =
          [r.nextEvent b eventType data] := by
        simp [EventRing.nextEvent]
      rw [hself, hrings, Function.update_self]
      exact BoundedLog.push_suffix _ (hr.suffix b)
    · have hnone : [r.nextEvent a eventType data].filter (fun e => decide (e.accountId = b)) =
          [] := by
        simp [EventRing.nextEvent, Ne.symm hb]
      rw [hnone, List.append_nil, hother b hb]
      exact hr.suffix b
  · intro b hne
    rw [haccounts]
    by_cases hb : b = a
    · subst hb
      split
      · assumption
      · simp
    · rw [hother b hb] at hne
      have hmem := hr.listed b hne
      split
      · exact hmem
      · exact List.mem_append_left _ hmem
  · intro e he
    by_cases hb : e.accountId = a
    · rw [hb]
      exact List.ne_nil_of_mem hpushed
    · rw [hother _ hb]
      rcases List.mem_append.1 he with he | he
      · exact hr.kept e he
      · rw [List.mem_singleton] at he
        subst he
        exact absurd rfl hb
  · rw [haccounts]
    split
    · exact hr.nodup
    · rename_i hnew
      rw [List.nodup_append]
      refine ⟨hr.nodup, List.nodup_singleton a, ?_⟩
      intro b hb c hc
      rw [List.mem_singleton] at hc
      subst hc
      rintro rfl
      exact hnew hb

section Ring

variable {r : EventRing} {history : List Event}

theorem RingInv.mem_ring (hr : RingInv r history)
    (he : e ∈ r.rings a) : e ∈ history ∧ e.accountId = a := by
  have hmem := (hr.suffix a).subset he
  rw [List.mem_filter, decide_eq_true_eq] at hmem
  exact hmem

theorem RingInv.ring_increasing (hr : RingInv r history) (a : AccountId) :
    BoundedLog.Increasing Event.id (r.rings a) :=
  hr.increasing.sublist ((hr.suffix a).sublist.trans List.filter_sublist)

theorem RingInv.eq_of_id (hr : RingInv r history) {e' : Event} (he : e ∈ history)
    (he' : e' ∈ history) (hid : e.id = e'.id) : e = e' := by
  by_contra hne
  have hlt := List.Pairwise.forall_of_forall_of_flip (R := fun a b : Event => a ≠ b → a.id ≠ b.id)
    (fun _ _ h => absurd rfl h)
    (hr.increasing.imp fun h _ => by omega) (hr.increasing.imp fun h _ => by omega) he he'
  exact hlt hne hid

theorem RingInv.mem_replayFrom (hr : RingInv r history) (he : e ∈ r.replayFrom last filter) :
    e ∈ history ∧ inScope filter e.accountId ∧ last < e.id ∧ e ∈ r.rings e.accountId := by
  cases filter with
  | none =>
    simp only [EventRing.replayFrom, List.mem_insertionSort, List.mem_flatMap, List.mem_filter,
      decide_eq_true_eq] at he
    obtain ⟨a, -, hmem, hlt⟩ := he
    obtain ⟨hhist, rfl⟩ := hr.mem_ring hmem
    exact ⟨hhist, trivial, hlt, hmem⟩
  | some a =>
    simp only [EventRing.replayFrom] at he
    split at he
    · simp at he
    · split at he
      · simp at he
      · rw [List.mem_filter, decide_eq_true_eq] at he
        obtain ⟨hhist, hacc⟩ := hr.mem_ring he.1
        exact ⟨hhist, hacc, he.2, hacc ▸ he.1⟩

theorem RingInv.mem_replayFrom_none (hr : RingInv r history)
    (he : e ∈ r.rings e.accountId) (hlt : last < e.id) : e ∈ r.replayFrom last none := by
  simp only [EventRing.replayFrom, List.mem_insertionSort, List.mem_flatMap, List.mem_filter,
    decide_eq_true_eq]
  exact ⟨e.accountId, hr.listed _ (List.ne_nil_of_mem he), he, hlt⟩

theorem RingInv.mem_replayFrom_some (hr : RingInv r history)
    {o : Event} (ho : (r.rings a).head? = some o) (hle : o.id ≤ last) (he : e ∈ history)
    (hacc : e.accountId = a) (hlt : last < e.id) : e ∈ r.replayFrom last (some a) := by
  have hfilter : e ∈ history.filter fun x => decide (x.accountId = a) := by
    rw [List.mem_filter, decide_eq_true_eq]
    exact ⟨he, hacc⟩
  have hmem : e ∈ r.rings a :=
    (hr.increasing.sublist List.filter_sublist).mem_suffix (hr.suffix a) ho hfilter (by omega)
  simp only [EventRing.replayFrom, ho]
  rw [if_neg (by omega), List.mem_filter, decide_eq_true_eq]
  exact ⟨hmem, hlt⟩

theorem RingInv.replayFrom_increasing (hr : RingInv r history) (last : ℕ)
    (filter : Option AccountId) : BoundedLog.Increasing Event.id (r.replayFrom last filter) := by
  cases filter with
  | some a =>
    simp only [EventRing.replayFrom]
    split
    · exact List.Pairwise.nil
    · split
      · exact List.Pairwise.nil
      · exact (hr.ring_increasing a).sublist List.filter_sublist
  | none =>
    apply BoundedLog.increasing_of_sorted
    · exact List.pairwise_insertionSort _ _
    · -- the rings of different accounts share no event
      simp only [EventRing.replayFrom]
      rw [(List.perm_insertionSort _ _).nodup_iff, List.nodup_flatMap]
      refine ⟨fun a _ => ?_, hr.nodup.imp_of_mem fun {a b} _ _ hne => ?_⟩
      · have hinc := (hr.ring_increasing a).sublist
          (List.filter_sublist (p := fun e : Event => decide (last < e.id)))
        exact hinc.imp fun {x y} hlt heq => by subst heq; omega
      · intro e hea heb
        have ha := hr.mem_ring (List.mem_of_mem_filter hea)
        have hb := hr.mem_ring (List.mem_of_mem_filter heb)
        exact hne (ha.2.symm.trans hb.2)
    · intro e he e' he' hid
      exact hr.eq_of_id (hr.mem_replayFrom he).1 (hr.mem_replayFrom he').1 hid

/-- A frame that spares the client an event: the event's own, or one telling it to
drop everything up to an id at or above the event's. -/
def Covers (x e : Event) : Prop := x = e ∨ x.frame.Announces ∧ e.id ≤ x.id

instance (x e : Event) : Decidable (Covers x e) := inferInstanceAs (Decidable (_ ∨ _))

/-- What a read after `last` needs: an account's ring is empty or reaches back to
`last`; of all accounts' events after `last`, each is retained or covered by a
retained one. -/
def Readable (r : EventRing) (history : List Event) (last : ℕ) : Option AccountId → Prop
  | some a => ∀ o ∈ (r.rings a).head?, o.id ≤ last
  | none => ∀ e ∈ history, last < e.id →
      ∃ x ∈ history, x ∈ r.rings x.accountId ∧ Covers x e

instance (r : EventRing) (history : List Event) (last : ℕ) :
    (filter : Option AccountId) → Decidable (Readable r history last filter)
  | some a => inferInstanceAs (Decidable (∀ o ∈ (r.rings a).head?, _))
  | none => inferInstanceAs (Decidable (∀ e ∈ history, _ → _))

/-- **A readable ring hides nothing** from a read of its scope. -/
theorem RingInv.covered_of_readable (hr : RingInv r history) (h : Readable r history last filter)
    (he : e ∈ history) (hscope : inScope filter e.accountId) (hlt : last < e.id) :
    ∃ x ∈ r.replayFrom last filter, Covers x e := by
  cases filter with
  | some a =>
    have hacc : e.accountId = a := hscope
    obtain ⟨o, ho⟩ : ∃ o, (r.rings a).head? = some o := by
      cases hring : r.rings a with
      | nil => exact absurd hring (hacc ▸ hr.kept e he)
      | cons o _ => exact ⟨o, rfl⟩
    exact ⟨e, hr.mem_replayFrom_some ho (h o ho) he hacc hlt, .inl rfl⟩
  | none =>
    obtain ⟨x, hx, hmem, hcov⟩ := h e he hlt
    refine ⟨x, hr.mem_replayFrom_none hmem ?_, hcov⟩
    rcases hcov with rfl | ⟨-, hle⟩
    · exact hlt
    · omega

theorem RingInv.hidden_of_not_readable (hr : RingInv r history) (h : ¬ Readable r history last filter) :
    ∃ e ∈ history, inScope filter e.accountId ∧ last < e.id ∧
      ∀ x ∈ r.replayFrom last filter, ¬ Covers x e := by
  cases filter with
  | some a =>
    simp only [Readable, not_forall, not_le] at h
    obtain ⟨o, ho, hlt⟩ := h
    obtain ⟨hhist, hacc⟩ := hr.mem_ring (List.mem_of_head? ho)
    refine ⟨o, hhist, hacc, hlt, ?_⟩
    have hhead : (r.rings a).head? = some o := ho
    simp [EventRing.replayFrom, hhead, hlt]
  | none =>
    simp only [Readable, not_forall, not_exists, not_and] at h
    obtain ⟨e, he, hlt, hno⟩ := h
    refine ⟨e, he, trivial, hlt, fun x hx => ?_⟩
    obtain ⟨hhist, -, -, hmem⟩ := hr.mem_replayFrom hx
    exact hno x hhist hmem

theorem RingInv.mem_replayFrom_of_hasEventsAfter (hr : RingInv r history) (h : r.hasEventsAfter last filter = true)
    (he : e ∈ history) (hscope : inScope filter e.accountId) (hlt : last < e.id) :
    e ∈ r.replayFrom last filter := by
  cases filter with
  | some a =>
    simp only [EventRing.hasEventsAfter] at h
    split at h
    · cases h
    · rename_i o ho
      exact hr.mem_replayFrom_some ho (of_decide_eq_true h) he hscope hlt
  | none =>
    simp only [EventRing.hasEventsAfter, List.all_eq_true] at h
    have hacc := h e.accountId (hr.listed _ (hr.kept e he))
    split at hacc
    · rename_i hnone
      exact absurd (List.head?_eq_none_iff.1 hnone) (hr.kept e he)
    · rename_i o ho
      have hmem := hr.mem_replayFrom_some ho (of_decide_eq_true hacc) he rfl hlt
      exact hr.mem_replayFrom_none (hr.mem_replayFrom hmem).2.2.2 hlt

def lastOf (events : List Event) (last : ℕ) : ℕ :=
  match events.getLast? with
  | some e => e.id
  | none => last

theorem lastOf_cons (e : Event) (rest : List Event) (last : ℕ) :
    lastOf (e :: rest) last = lastOf rest e.id := by
  cases rest with
  | nil => rfl
  | cons x xs =>
    unfold lastOf
    rw [List.getLast?_cons_cons, List.getLast?_cons]

theorem RingInv.replayFrom_lastOf_subset (hr : RingInv r history) (last : ℕ)
    (filter : Option AccountId) :
    r.replayFrom (lastOf (r.replayFrom last filter) last) filter ⊆ r.replayFrom last filter := by
  intro x hx
  obtain ⟨hhist, hscope, hlt, hmem⟩ := hr.mem_replayFrom hx
  cases hlast : (r.replayFrom last filter).getLast? with
  | none =>
    simp only [lastOf, hlast] at hx
    exact hx
  | some o =>
    have hread := hr.mem_replayFrom (List.mem_of_getLast? hlast)
    simp only [lastOf, hlast] at hlt
    have hlt' : last < x.id := by omega
    cases filter with
    | none => exact hr.mem_replayFrom_none hmem hlt'
    | some a =>
      have hne : r.replayFrom last (some a) ≠ [] := by
        intro hnil
        simp [hnil] at hlast
      simp only [EventRing.replayFrom] at hne
      split at hne
      · exact absurd rfl hne
      · rename_i oldest hold
        split at hne
        · exact absurd rfl hne
        · exact hr.mem_replayFrom_some hold (by omega) hhist hscope hlt'

theorem RingInv.replayFrom_lastOf (hr : RingInv r history) (hne : r.replayFrom last filter ≠ []) :
    r.replayFrom (lastOf (r.replayFrom last filter) last) filter = [] := by
  apply List.eq_nil_iff_forall_not_mem.2
  intro x hx
  have hlt := (hr.mem_replayFrom hx).2.2.1
  have hmem := hr.replayFrom_lastOf_subset last filter hx
  cases hlast : (r.replayFrom last filter).getLast? with
  | none => exact hne (List.getLast?_eq_none_iff.1 hlast)
  | some o =>
    have hle := (hr.replayFrom_increasing last filter).le_getLast hlast hmem
    simp only [lastOf, hlast] at hlt
    omega

end Ring

end MailVerdict.Analysis.EventRingReads
