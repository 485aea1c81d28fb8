import Mathlib.Data.List.Sort

/-!
# A sorted queue that loses its first entries

A queue is sorted anew from a table whenever it is read. The sort is stable, so what is
read after entries left the table is what was read before, without them
(`filter_insertionSort`). Where the entries that left are the first ones, that is the
rest of the old queue (`filter_take_eq_drop`).
-/

namespace MailVerdict.Computation.SortedQueue

universe u v

variable {α : Type u} {β : Type v}

section Sorting

variable {r : α → α → Prop} [DecidableRel r] [IsTrans α r]

theorem filter_orderedInsert (p : α → Bool) (a : α) (l : List α) (hl : l.Pairwise r) :
    (l.orderedInsert r a).filter p =
      if p a then (l.filter p).orderedInsert r a else l.filter p := by
  induction l with
  | nil => simp [List.filter_cons]
  | cons b l ih =>
    obtain ⟨hb, hl⟩ := List.pairwise_cons.1 hl
    by_cases hab : r a b
    · rw [List.orderedInsert_cons_of_le r l hab, List.filter_cons]
      split
      · -- everything left of the list is above `b`, hence above `a`
        symm
        have hbelow : ∀ c ∈ (b :: l).filter p, r a c := by
          intro c hc
          obtain rfl | hc := List.mem_cons.1 (List.mem_filter.1 hc).1
          · exact hab
          · exact IsTrans.trans a b c hab (hb c hc)
        cases hrest : (b :: l).filter p with
        | nil => rfl
        | cons c rest =>
          exact List.orderedInsert_cons_of_le r rest (hbelow c (by simp [hrest]))
      · rfl
    · rw [List.orderedInsert_of_not_le r l hab, List.filter_cons, List.filter_cons, ih hl]
      by_cases hpb : p b = true
      · by_cases hpa : p a = true
        · simp [hpa, hpb, hab]
        · simp [hpa, hpb]
      · simp [hpb]

theorem filter_insertionSort [Std.Total r] (p : α → Bool) (l : List α) :
    (l.insertionSort r).filter p = (l.filter p).insertionSort r := by
  induction l with
  | nil => rfl
  | cons a l ih =>
    rw [List.insertionSort_cons, filter_orderedInsert p a _ (List.pairwise_insertionSort r l),
      ih, List.filter_cons]
    split
    · rw [List.insertionSort_cons]
    · rfl

end Sorting

variable [DecidableEq β] {key : α → β}

theorem filter_take_eq_drop (l : List α) (hl : (l.map key).Nodup) (n : ℕ) :
    (l.filter fun a => decide (key a ∉ (l.take n).map key)) = l.drop n := by
  have hsplit : (l.take n ++ l.drop n).filter (fun a => decide (key a ∉ (l.take n).map key)) =
      l.drop n := by
    have hdisjoint := (List.nodup_append.1
      (by rw [← List.map_append, List.take_append_drop]; exact hl :
        ((l.take n).map key ++ (l.drop n).map key).Nodup)).2.2
    rw [List.filter_append]
    have htaken : (l.take n).filter (fun a => decide (key a ∉ (l.take n).map key)) = [] := by
      rw [List.filter_eq_nil_iff]
      intro a ha
      rw [decide_eq_true_eq, not_not]
      exact List.mem_map_of_mem ha
    have hkept : (l.drop n).filter (fun a => decide (key a ∉ (l.take n).map key)) =
        l.drop n := by
      rw [List.filter_eq_self]
      intro a ha
      rw [decide_eq_true_eq]
      intro hmem
      exact hdisjoint _ hmem _ (List.mem_map_of_mem ha) rfl
    rw [htaken, hkept, List.nil_append]
  rwa [List.take_append_drop] at hsplit

end MailVerdict.Computation.SortedQueue
