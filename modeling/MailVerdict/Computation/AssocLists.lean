import Mathlib.Data.List.Nodup

/-!
# Dictionaries as lists

A dictionary is the list of its entries, in the order they were put in, and `lookup` finds the
first entry of a key. Where every key has one entry, what is looked up is what is there.
-/

namespace MailVerdict.Computation

variable {K B : Type}

section Lookup

variable [DecidableEq K] {l : List (K × B)} {k : K} {b : B}

theorem lookup_cons_ne {x : K} (h : k ≠ x) : ((x, b) :: l).lookup k = l.lookup k := by
  have hmiss : (k == x) = false := beq_eq_false_iff_ne.2 h
  rw [List.lookup_cons, hmiss]

theorem mem_of_lookup (h : l.lookup k = some b) : (k, b) ∈ l := by
  induction l with
  | nil => cases h
  | cons e l ih =>
    obtain ⟨x, c⟩ := e
    by_cases hk : k = x
    · subst hk
      rw [List.lookup_cons_self] at h
      cases h
      exact List.mem_cons_self
    · rw [lookup_cons_ne hk] at h
      exact List.mem_cons_of_mem _ (ih h)

theorem lookup_isSome_iff : (l.lookup k).isSome = true ↔ ∃ b, (k, b) ∈ l := by
  constructor
  · intro h
    obtain ⟨b, hb⟩ := Option.isSome_iff_exists.1 h
    exact ⟨b, mem_of_lookup hb⟩
  · rintro ⟨b, hb⟩
    cases hnone : l.lookup k with
    | some c => rfl
    | none =>
      have hmiss := List.lookup_eq_none_iff.1 hnone (k, b) hb
      simp at hmiss

theorem lookup_eq_some_iff_mem (h : (l.map Prod.fst).Nodup) :
    l.lookup k = some b ↔ (k, b) ∈ l := by
  refine ⟨mem_of_lookup, fun hmem => ?_⟩
  obtain ⟨c, hc⟩ := Option.isSome_iff_exists.1 (lookup_isSome_iff.2 ⟨b, hmem⟩)
  have hsame := List.inj_on_of_nodup_map h hmem (mem_of_lookup hc) rfl
  rw [hc, (Prod.mk.inj hsame).2]

end Lookup

section Keys

variable [BEq K]

theorem eraseDups_length_le (l : List K) : l.eraseDups.length ≤ l.length := by
  cases l with
  | nil => exact Nat.le_refl _
  | cons x xs =>
    have hrest := eraseDups_length_le (xs.filter fun y => !y == x)
    have hfilter := List.length_filter_le (fun y => !y == x) xs
    rw [List.eraseDups_cons, List.length_cons, List.length_cons]
    omega
termination_by l.length
decreasing_by
  have hfilter := List.length_filter_le (fun y => !y == x) xs
  simp only [List.length_cons]
  omega

theorem eraseDups_nodup [LawfulBEq K] (l : List K) : l.eraseDups.Nodup := by
  cases l with
  | nil => exact List.nodup_nil
  | cons x xs =>
    rw [List.eraseDups_cons, List.nodup_cons]
    refine ⟨?_, eraseDups_nodup (xs.filter fun y => !y == x)⟩
    rw [List.mem_eraseDups, List.mem_filter]
    simp
termination_by l.length
decreasing_by
  have hfilter := List.length_filter_le (fun y => !y == x) xs
  simp only [List.length_cons]
  omega

end Keys

end MailVerdict.Computation
