import Mathlib.Algebra.BigOperators.Group.List.Basic
import Mathlib.Algebra.GroupWithZero.Nat
import Mathlib.Algebra.Order.Group.Nat

/-!
# Shares of one budget

A fixed list of members draws on one budget, each with a share of its own. What is promised and
what is in use are two such assignments: the check is made on the promises, the use follows
later. `total_update` is the arithmetic of changing one share; `total_le_of_dominated` is why a
checked promise bounds the use as long as nobody uses more than it is promised.
-/

namespace MailVerdict.Computation.SharedBudget

universe u

variable {K : Type u}

def total (members : List K) (share : K → ℕ) : ℕ := (members.map share).sum

variable {members : List K} {f g : K → ℕ} {k : K}

theorem total_congr (h : ∀ m ∈ members, f m = g m) : total members f = total members g := by
  rw [total, total, List.map_congr_left h]

theorem total_le_of_dominated (h : ∀ m ∈ members, f m ≤ g m) :
    total members f ≤ total members g := by
  induction members with
  | nil => exact Nat.le_refl _
  | cons m rest ih =>
    simp only [total, List.map_cons, List.sum_cons]
    have hhead := h m List.mem_cons_self
    have htail := ih fun x hx => h x (List.mem_cons_of_mem _ hx)
    simp only [total] at htail
    omega

variable [DecidableEq K]

/-- What the members other than one draw together. -/
def others (members : List K) (share : K → ℕ) (k : K) : ℕ :=
  ((members.filter fun m => decide (m ≠ k)).map share).sum

theorem total_cons_update (h : k ∉ members) (v : ℕ) :
    total (k :: members) (Function.update f k v) = v + total members f := by
  rw [total, List.map_cons, List.sum_cons, Function.update_self]
  refine congrArg (v + ·) (total_congr fun m hm => Function.update_of_ne ?_ _ _)
  rintro rfl
  exact h hm

theorem others_update (v : ℕ) : others members (Function.update f k v) k = others members f k := by
  rw [others, others]
  refine congrArg List.sum (List.map_congr_left fun m hm => ?_)
  exact Function.update_of_ne (of_decide_eq_true (List.mem_filter.1 hm).2) _ _

theorem others_of_not_mem (h : k ∉ members) : others members f k = total members f := by
  rw [others, total, List.filter_eq_self.2]
  intro m hm
  apply decide_eq_true
  rintro rfl
  exact h hm

theorem total_eq (hnodup : members.Nodup) (hk : k ∈ members) :
    total members f = others members f k + f k := by
  induction members with
  | nil => cases hk
  | cons m rest ih =>
    obtain ⟨hm, hrest⟩ := List.nodup_cons.1 hnodup
    by_cases hmk : m = k
    · subst hmk
      have hothers : others (m :: rest) f m = total rest f := by
        rw [← others_of_not_mem hm, others, others, List.filter_cons_of_neg (by simp)]
      rw [hothers]
      simp only [total, List.map_cons, List.sum_cons]
      omega
    · have hin : k ∈ rest := (List.mem_cons.1 hk).resolve_left fun h => hmk h.symm
      have hsplit := ih hrest hin
      have hfilter : (m :: rest).filter (fun x => decide (x ≠ k)) =
          m :: rest.filter fun x => decide (x ≠ k) :=
        List.filter_cons_of_pos (decide_eq_true hmk)
      simp only [total, others, hfilter, List.map_cons, List.sum_cons] at hsplit ⊢
      omega

theorem total_update (hnodup : members.Nodup) (hk : k ∈ members) (v : ℕ) :
    total members (Function.update f k v) = others members f k + v := by
  rw [total_eq hnodup hk, others_update, Function.update_self]

theorem total_update_le (hnodup : members.Nodup) (hk : k ∈ members) {v : ℕ} (hv : v ≤ f k) :
    total members (Function.update f k v) ≤ total members f := by
  rw [total_update hnodup hk, total_eq hnodup hk]
  omega

end MailVerdict.Computation.SharedBudget
