import MailVerdict.Model.UsageExport

/-!
# Where the usage export stands

A pass that reads the table sees no row of a transaction that is still open, and such a row
may have a lower id than one it sees. The batch stops at the first row that is younger than
the settle time; a row that is old enough was given its id long ago, so that a transaction
with a lower id began long ago and is not open any more. That holds as long as the time from
the beginning of a transaction to its id and the time to its end add up to less than the
settle time (`Numbering.lower_of_settled`). What is then at or below a position has been
delivered and stays so (`Passed`).
-/

namespace MailVerdict.Analysis.UsageCursor

open MailVerdict.Computation
open Model.UsageExport

/-- A transaction takes its id at most `lag` after it began and ends at most `hold` after
it began. -/
def Timely (lag hold : Time) (s : State) : Label → Prop
  | .tick now => ∀ i ∈ s.inserts, now ≤ i.createdAt + hold
  | .takeId i => s.clock ≤ i.createdAt + lag
  | _ => True

instance (lag hold : Time) (s : State) (l : Label) : Decidable (Timely lag hold s l) := by
  cases l <;> unfold Timely <;> infer_instance

def Known (s : State) (r : LlmUsage) : Prop := r ∈ s.rows.rows ∨ r ∈ s.pruned.map Prod.fst

def Numbered (s : State) (r : LlmUsage) : Prop :=
  Known s r ∨ ∃ i ∈ s.inserts, ∃ n, i.id = some n ∧ i.row n = r

variable {c : Config} {lag hold : Time} {s t : State} {l : Label}

/-! ### Ids and times -/

/-- What holds of the ids that were handed out and of the transactions that are open. -/
structure Numbering (lag hold : Time) (s : State) : Prop where
  nodup : (s.inserts.filterMap Insert.id).Nodup
  fresh : ∀ i ∈ s.inserts, ∀ n, i.id = some n → ∀ r, Known s r → r.id ≠ n
  bound : ∀ r, Numbered s r → r.id < s.nextId
  unique : ∀ r r', Numbered s r → Numbered s r' → r.id = r'.id → r = r'
  began : ∀ i ∈ s.inserts, i.createdAt ≤ s.clock ∧ s.clock ≤ i.createdAt + hold
  order : ∀ i ∈ s.inserts, ∀ n, i.id = some n → ∀ r, Numbered s r → n < r.id →
    i.createdAt ≤ r.createdAt + lag

theorem Numbering.shrink (h : Numbering lag hold s)
    (hsub : t.inserts.Sublist s.inserts) (hnumbered : ∀ r, Numbered t r → Numbered s r)
    (hfresh : ∀ i ∈ t.inserts, ∀ n, i.id = some n → ∀ r, Known t r → r.id ≠ n)
    (hnext : t.nextId = s.nextId) (hclock : t.clock = s.clock) : Numbering lag hold t where
  nodup := h.nodup.sublist (hsub.filterMap _)
  fresh := hfresh
  bound r hr := by
    rw [hnext]
    exact h.bound r (hnumbered r hr)
  unique r r' hr hr' := h.unique r r' (hnumbered r hr) (hnumbered r' hr')
  began i hi := by
    rw [hclock]
    exact h.began i (hsub.subset hi)
  order i hi n hn r hr := h.order i (hsub.subset hi) n hn r (hnumbered r hr)

theorem Numbering.congr (h : Numbering lag hold s) (hrows : t.rows = s.rows)
    (hpruned : t.pruned = s.pruned) (hinserts : t.inserts = s.inserts)
    (hnext : t.nextId = s.nextId) (hclock : t.clock = s.clock) : Numbering lag hold t := by
  have hknown : ∀ r, Known t r ↔ Known s r := fun r => by rw [Known, Known, hrows, hpruned]
  refine h.shrink (by rw [hinserts]) (fun r hr => ?_) (fun i hi n hn r hr => ?_) hnext hclock
  · rw [Numbered, hknown, hinserts] at hr
    exact hr
  · exact h.fresh i (hinserts ▸ hi) n hn r ((hknown r).1 hr)

theorem Numbering.tick (h : Numbering lag hold s) {now : Time} (hclock : s.clock ≤ now)
    (htimely : ∀ i ∈ s.inserts, now ≤ i.createdAt + hold) :
    Numbering lag hold { s with clock := now } where
  nodup := h.nodup
  fresh := h.fresh
  bound := h.bound
  unique := h.unique
  began i hi := ⟨(h.began i hi).1.trans hclock, htimely i hi⟩
  order := h.order

theorem Numbering.beginInsert (h : Numbering lag hold s) (usage : Usage) :
    Numbering lag hold { s with inserts := ⟨s.clock, usage, none⟩ :: s.inserts } := by
  have hold_of : ∀ i ∈ ⟨s.clock, usage, none⟩ :: s.inserts, ∀ n, i.id = some n →
      i ∈ s.inserts := by
    intro i hi n hn
    obtain rfl | hi := List.mem_cons.1 hi
    · cases hn
    · exact hi
  have hnumbered : ∀ r, Numbered { s with inserts := ⟨s.clock, usage, none⟩ :: s.inserts } r →
      Numbered s r := by
    rintro r (hr | ⟨i, hi, n, hn, rfl⟩)
    · exact Or.inl hr
    · exact Or.inr ⟨i, hold_of i hi n hn, n, hn, rfl⟩
  constructor
  · exact h.nodup
  · intro i hi n hn
    exact h.fresh i (hold_of i hi n hn) n hn
  · intro r hr
    exact h.bound r (hnumbered r hr)
  · intro r r' hr hr'
    exact h.unique r r' (hnumbered r hr) (hnumbered r' hr')
  · intro i hi
    obtain rfl | hi := List.mem_cons.1 hi
    · exact ⟨le_rfl, Nat.le_add_right _ _⟩
    · exact h.began i hi
  · intro i hi n hn r hr
    exact h.order i (hold_of i hi n hn) n hn r (hnumbered r hr)

/-- An insert that takes its id within the lag of its time keeps ids and times in order, up to the
lag. -/
theorem Numbering.takeId (h : Numbering lag hold s) {i : Insert} (hi : i ∈ s.inserts)
    (htimely : s.clock ≤ i.createdAt + lag) :
    Numbering lag hold (s.takeId i) := by
  have hmem : ∀ j ∈ (s.takeId i).inserts, ∀ n, j.id = some n →
      j ∈ s.inserts ∨ n = s.nextId ∧ j = { i with id := some s.nextId } := by
    intro j hj n hn
    obtain rfl | hj := List.mem_cons.1 hj
    · exact Or.inr ⟨(Option.some.inj hn).symm, rfl⟩
    · exact Or.inl (List.mem_of_mem_erase hj)
  have hnumbered : ∀ r, Numbered (s.takeId i) r → Numbered s r ∨ r = i.row s.nextId := by
    rintro r (hr | ⟨j, hj, n, hn, rfl⟩)
    · exact Or.inl (Or.inl hr)
    · obtain hj | ⟨rfl, rfl⟩ := hmem j hj n hn
      · exact Or.inl (Or.inr ⟨j, hj, n, hn, rfl⟩)
      · exact Or.inr rfl
  have hlow : ∀ j ∈ s.inserts, ∀ n, j.id = some n → n < s.nextId := fun j hj n hn =>
    h.bound (j.row n) (Or.inr ⟨j, hj, n, hn, rfl⟩)
  constructor
  · have hids : (s.takeId i).inserts.filterMap Insert.id =
        s.nextId :: (s.inserts.erase i).filterMap Insert.id := by
      simp [State.takeId]
    rw [hids, List.nodup_cons]
    refine ⟨fun hn => ?_, h.nodup.sublist (List.erase_sublist.filterMap _)⟩
    obtain ⟨j, hj, hjn⟩ := List.mem_filterMap.1 hn
    exact absurd (hlow j (List.mem_of_mem_erase hj) _ hjn) (lt_irrefl _)
  · intro j hj n hn r hr
    obtain hj | ⟨rfl, -⟩ := hmem j hj n hn
    · exact h.fresh j hj n hn r hr
    · exact (h.bound r (Or.inl hr)).ne
  · intro r hr
    change r.id < s.nextId + 1
    obtain hr | rfl := hnumbered r hr
    · exact (h.bound r hr).trans (Nat.lt_succ_self _)
    · exact Nat.lt_succ_self _
  · intro r r' hr hr' hid
    obtain hr | rfl := hnumbered r hr
    · obtain hr' | rfl := hnumbered r' hr'
      · exact h.unique r r' hr hr' hid
      · exact absurd hid (h.bound r hr).ne
    · obtain hr' | rfl := hnumbered r' hr'
      · exact absurd hid.symm (h.bound r' hr').ne
      · rfl
  · intro j hj
    obtain rfl | hj := List.mem_cons.1 hj
    · exact h.began i hi
    · exact h.began j (List.mem_of_mem_erase hj)
  · intro j hj n hn r hr hlt
    obtain hr | rfl := hnumbered r hr
    · obtain hj | ⟨rfl, -⟩ := hmem j hj n hn
      · exact h.order j hj n hn r hr hlt
      · exact absurd (h.bound r hr) (Nat.lt_asymm hlt)
    · obtain hj | ⟨rfl, -⟩ := hmem j hj n hn
      · -- `j` had begun when `i` took its id
        exact (h.began j hj).1.trans htimely
      · exact absurd hlt (lt_irrefl _)

theorem Numbering.ne_of_erase (h : Numbering lag hold s) {i j : Insert} {n : ℕ}
    (hi : i ∈ s.inserts) (hn : i.id = some n) (hj : j ∈ s.inserts.erase i) : j.id ≠ some n := by
  intro hjn
  have hperm := (List.perm_cons_erase hi).filterMap Insert.id
  have hnodup := hperm.nodup_iff.1 h.nodup
  rw [List.filterMap_cons_some hn, List.nodup_cons] at hnodup
  exact hnodup.1 (List.mem_filterMap.2 ⟨j, hj, hjn⟩)

theorem Numbering.commit (h : Numbering lag hold s) {i : Insert} {n : ℕ} (hi : i ∈ s.inserts)
    (hn : i.id = some n) (hcommit : s.commit i n = some t) : Numbering lag hold t := by
  unfold State.commit at hcommit
  split at hcommit
  · next hnew =>
    cases hcommit
    have hknown : ∀ r, Known { s with rows := s.rows.insert (i.row n) hnew
                                      inserts := s.inserts.erase i } r →
        Known s r ∨ r = i.row n := by
      rintro r (hr | hr)
      · obtain hr | rfl := (KeyedTable.mem_insert hnew).1 hr
        · exact Or.inl (Or.inl hr)
        · exact Or.inr rfl
      · exact Or.inl (Or.inr hr)
    refine h.shrink List.erase_sublist (fun r hr => ?_) (fun j hj m hm r hr => ?_) rfl rfl
    · obtain hr | ⟨j, hj, m, hm, rfl⟩ := hr
      · obtain hr | rfl := hknown r hr
        · exact Or.inl hr
        · exact Or.inr ⟨i, hi, n, hn, rfl⟩
      · exact Or.inr ⟨j, List.mem_of_mem_erase hj, m, hm, rfl⟩
    · obtain hr | rfl := hknown r hr
      · exact h.fresh j (List.mem_of_mem_erase hj) m hm r hr
      · rintro rfl
        exact h.ne_of_erase hi hn hj hm
  · cases hcommit

theorem Numbering.rollback (h : Numbering lag hold s) (i : Insert) :
    Numbering lag hold { s with inserts := s.inserts.erase i } := by
  refine h.shrink List.erase_sublist (fun r hr => ?_) (fun j hj n hn r hr => ?_) rfl rfl
  · obtain hr | ⟨j, hj, n, hn, rfl⟩ := hr
    · exact Or.inl hr
    · exact Or.inr ⟨j, List.mem_of_mem_erase hj, n, hn, rfl⟩
  · exact h.fresh j (List.mem_of_mem_erase hj) n hn r hr

theorem known_prune (startedAt : Time) (r : LlmUsage) :
    Known (s.prune c startedAt) r ↔ Known s r := by
  simp only [Known, State.prune, KeyedTable.mem_filter, List.map_append, List.mem_append,
    List.map_map, List.mem_map, Function.comp_apply, List.mem_filter]
  constructor
  · rintro (⟨hr, -⟩ | hr | ⟨r', ⟨hr, -⟩, rfl⟩)
    · exact Or.inl hr
    · exact Or.inr hr
    · exact Or.inl hr
  · rintro (hr | hr)
    · by_cases hkept : startedAt ≤ r.createdAt + c.retention
      · exact Or.inl ⟨hr, decide_eq_true hkept⟩
      · exact Or.inr (Or.inr ⟨r, ⟨hr, by simpa using hkept⟩, rfl⟩)
    · exact Or.inr (Or.inl hr)

theorem Numbering.prune (h : Numbering lag hold s) (startedAt : Time) :
    Numbering lag hold (s.prune c startedAt) := by
  refine h.shrink (List.Sublist.refl _) (fun r hr => ?_) (fun i hi n hn r hr => ?_) rfl rfl
  · obtain hr | hr := hr
    · exact Or.inl ((known_prune startedAt r).1 hr)
    · exact Or.inr hr
  · exact h.fresh i hi n hn r ((known_prune startedAt r).1 hr)

/-- **The settle time.** When a row is old enough, every transaction that is open has a
higher id, or none yet. -/
theorem Numbering.lower_of_settled (h : Numbering lag hold s) (hsettle : lag + hold < rowSettle)
    {now : Time} (hnow : now ≤ s.clock) {r : LlmUsage} (hr : r ∈ s.rows.rows)
    (hsettled : r.createdAt + rowSettle ≤ now) {i : Insert} (hi : i ∈ s.inserts) {n : ℕ}
    (hn : i.id = some n) : r.id < n := by
  by_contra hlt
  have hne : r.id ≠ n := h.fresh i hi n hn r (Or.inl hr)
  have hbegan := h.order i hi n hn r (Or.inl (Or.inl hr)) (lt_of_le_of_ne (not_lt.1 hlt) hne.symm)
  refine lt_irrefl now ?_
  calc now ≤ s.clock := hnow
    _ ≤ i.createdAt + hold := (h.began i hi).2
    _ ≤ r.createdAt + lag + hold := Nat.add_le_add_right hbegan hold
    _ = r.createdAt + (lag + hold) := Nat.add_assoc _ _ _
    _ < r.createdAt + rowSettle := Nat.add_lt_add_left hsettle _
    _ ≤ now := hsettled

end MailVerdict.Analysis.UsageCursor
