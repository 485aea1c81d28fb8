import Mathlib.Tactic.Linarith
import Mathlib.Tactic.FieldSimp
import Mathlib.Tactic.Ring
import MailVerdict.Model.SearchTiers

/-!
# Tiers cut the pool by score

The tier of a hit is a function of its score that the pool fixes (`tierOf`), the same for every
order of the pool. It is monotone, it gives the three best scores the best tier, and moving or
stretching all scores alike moves the pool's levels with them (`tiers_cut_by_score`).
-/

namespace MailVerdict.Analysis.TieredHits

open Model.SearchTiers

variable {scores pool : List ℚ} {a b x y : ℚ}

def badness : Option Tier → ℕ
  | some .one => 0
  | some .two => 1
  | none => 2

theorem badness_le_two (t : Option Tier) : badness t ≤ 2 := by
  rcases t with _ | _ | _ <;> decide

def tierOf (scores : List ℚ) (score : ℚ) : Option Tier :=
  if scores.length ≤ 3 ∨ span scores ≤ 0 then some .one else tier scores score

theorem assignTiers_eq (scores : List ℚ) : assignTiers scores = scores.map (tierOf scores) := by
  unfold assignTiers tierOf
  by_cases hfew : scores.length ≤ 3
  · simp [hfew, List.map_const']
  · by_cases hflat : span scores ≤ 0
    · simp [hfew, hflat, List.map_const']
    · simp [hfew, hflat]

/-! ## The ranking -/

theorem ranked_perm (scores : List ℚ) : (ranked scores).Perm scores := List.mergeSort_perm scores _

theorem ranked_sorted (scores : List ℚ) : (ranked scores).Pairwise (· ≥ ·) := by
  have hsorted : (ranked scores).Pairwise fun a b => decide (b ≤ a) = true :=
    List.pairwise_mergeSort
    (fun a b c hab hbc => decide_eq_true ((of_decide_eq_true hbc).trans (of_decide_eq_true hab)))
    (fun a b => by simpa using le_total b a) scores
  exact hsorted.imp of_decide_eq_true

theorem ranked_eq {ranking : List ℚ} (hperm : ranking.Perm scores)
    (hsorted : ranking.Pairwise (· ≥ ·)) : ranked scores = ranking :=
  ((ranked_perm scores).trans hperm.symm).eq_of_pairwise (fun _ _ _ _ h h' => le_antisymm h' h)
    (ranked_sorted scores) hsorted

theorem tierOf_perm (h : pool.Perm scores) : tierOf pool = tierOf scores := by
  have hranked : ranked pool = ranked scores :=
    ranked_eq ((ranked_perm scores).trans h.symm) (ranked_sorted scores)
  have hanchor : anchor pool = anchor scores := by rw [anchor, hranked, anchor]
  have hbackground : background pool = background scores := by
    rw [background, hranked, h.length_eq, background]
  have hspan : span pool = span scores := by rw [span, hanchor, hbackground, span]
  funext score
  have htier : tier pool score = tier scores score := by rw [tier, hbackground, hspan, tier]
  rw [tierOf, htier, h.length_eq, hspan, tierOf]

theorem ranked_affine (ha : 0 < a) :
    ranked (scores.map fun s => a * s + b) = (ranked scores).map fun s => a * s + b := by
  refine ranked_eq ((ranked_perm scores).map _) ?_
  rw [List.pairwise_map]
  exact (ranked_sorted scores).imp fun h => by
    have hmul := mul_le_mul_of_nonneg_left h ha.le
    linarith

/-! ## The levels of the pool -/

theorem getD_ranked_affine (ha : 0 < a) {n : ℕ} (hn : n < scores.length) :
    (ranked (scores.map fun s => a * s + b)).getD n 0 = a * (ranked scores).getD n 0 + b := by
  have hlen : n < (ranked scores).length := by rwa [(ranked_perm scores).length_eq]
  rw [ranked_affine ha, List.getD_eq_getElem?_getD, List.getElem?_map,
    List.getD_eq_getElem?_getD, List.getElem?_eq_getElem hlen]
  rfl

theorem tierOf_affine (ha : 0 < a) (x : ℚ) :
    tierOf (scores.map fun s => a * s + b) (a * x + b) = tierOf scores x := by
  unfold tierOf
  by_cases hfew : scores.length ≤ 3
  · simp [hfew]
  have hanchor : anchor (scores.map fun s => a * s + b) = a * anchor scores + b :=
    getD_ranked_affine ha (by omega)
  have hbackground : background (scores.map fun s => a * s + b) = a * background scores + b := by
    unfold background
    rw [List.length_map]
    exact getD_ranked_affine ha (by omega)
  have hspan : span (scores.map fun s => a * s + b) = a * span scores := by
    rw [span, hanchor, hbackground, span]
    ring
  have hflat : a * span scores ≤ 0 ↔ span scores ≤ 0 := by
    constructor
    · intro h
      by_contra hpos
      exact absurd h (not_le.2 (mul_pos ha (not_le.1 hpos)))
    · exact mul_nonpos_of_nonneg_of_nonpos ha.le
  have hposition : (a * x + b - (a * background scores + b)) / (a * span scores) =
      (x - background scores) / span scores := by
    rw [add_sub_add_right_eq_sub, ← mul_sub, mul_div_mul_left _ _ ha.ne']
  simp only [List.length_map, hspan, hflat, tier, hbackground, hposition]

theorem badness_tierOf (h : x ≤ y) : badness (tierOf scores y) ≤ badness (tierOf scores x) := by
  unfold tierOf
  by_cases hall : scores.length ≤ 3 ∨ span scores ≤ 0
  · rw [if_pos hall, if_pos hall]
  rw [if_neg hall, if_neg hall]
  have hpos : 0 < span scores := not_le.1 fun h => hall (.inr h)
  have hposition : (x - background scores) / span scores ≤ (y - background scores) / span scores :=
    div_le_div_of_nonneg_right (sub_le_sub_right h _) hpos.le
  unfold tier
  by_cases hone : tier1Min ≤ (x - background scores) / span scores
  · simp [hone, hone.trans hposition]
  by_cases htwo : tier2Min ≤ (x - background scores) / span scores
  · by_cases hone' : tier1Min ≤ (y - background scores) / span scores
    · simp [hone', badness]
    · simp [hone, htwo, hone', htwo.trans hposition]
  · rw [if_neg hone, if_neg htwo]
    exact badness_le_two _

theorem tierOf_anchor (h : anchor scores ≤ x) : tierOf scores x = some .one := by
  unfold tierOf
  by_cases hall : scores.length ≤ 3 ∨ span scores ≤ 0
  · rw [if_pos hall]
  have hpos : 0 < span scores := not_le.1 fun h => hall (.inr h)
  have hposition : tier1Min ≤ (x - background scores) / span scores := by
    have hone : (1 : ℚ) ≤ (x - background scores) / span scores := by
      rw [le_div_iff₀ hpos, one_mul, span]
      exact sub_le_sub_right h _
    exact le_trans (by norm_num [tier1Min]) hone
  rw [if_neg hall, tier, if_pos hposition]

theorem three_le_countP (h : 3 ≤ scores.length) :
    3 ≤ scores.countP fun s => decide (anchor scores ≤ s) := by
  have hlen : 3 ≤ (ranked scores).length := by rwa [(ranked_perm scores).length_eq]
  obtain ⟨x, y, z, rest, heq⟩ : ∃ x y z rest, ranked scores = x :: y :: z :: rest := by
    match ranked scores, hlen with
    | x :: y :: z :: rest, _ => exact ⟨x, y, z, rest, rfl⟩
  have hanchor : anchor scores = z := by rw [anchor, heq]; rfl
  have hsorted := heq ▸ ranked_sorted scores
  have hx : z ≤ x := List.rel_of_pairwise_cons hsorted (by simp)
  have hy : z ≤ y := List.rel_of_pairwise_cons hsorted.of_cons (by simp)
  rw [← (ranked_perm scores).countP_eq, heq, hanchor]
  simp [hx, hy]

theorem min_le_count_best (scores : List ℚ) :
    min scores.length 3 ≤ (assignTiers scores).count (some .one) := by
  rw [assignTiers_eq]
  by_cases hfew : scores.length ≤ 3
  · have hbest : scores.map (tierOf scores) = List.replicate scores.length (some .one) :=
      List.eq_replicate_iff.2 ⟨by simp, by simp [tierOf, hfew]⟩
    rw [hbest, List.count_replicate_self]
    exact Nat.min_le_left _ _
  · have hthree : 3 ≤ scores.countP fun s => decide (anchor scores ≤ s) :=
      three_le_countP (by omega)
    have hle : (scores.countP fun s => decide (anchor scores ≤ s)) ≤
        (scores.map (tierOf scores)).count (some .one) := by
      rw [List.count, List.countP_map]
      refine List.countP_mono_left fun s _ hs => ?_
      simpa using tierOf_anchor (of_decide_eq_true hs)
    omega

/-- **Tiers are a cut by score.** Each hit keeps its place and gets the tier of its score. A higher
score is never worse off, the best tier has three hits or all, and stretching and moving all
scores alike changes no tier. -/
theorem tiers_cut_by_score (scores : List ℚ) :
    (assignTiers scores).length = scores.length ∧
    (∀ pool, pool.Perm scores → ∀ (i j : ℕ) (x : ℚ), pool[i]? = some x → scores[j]? = some x →
      (assignTiers pool)[i]? = (assignTiers scores)[j]?) ∧
    (∀ (i j : ℕ) (x y : ℚ) (t u : Option Tier), scores[i]? = some x → scores[j]? = some y → x < y →
      (assignTiers scores)[i]? = some t → (assignTiers scores)[j]? = some u →
        badness u ≤ badness t) ∧
    min scores.length 3 ≤ (assignTiers scores).count (some .one) ∧
    ∀ a b : ℚ, 0 < a → assignTiers (scores.map fun s => a * s + b) = assignTiers scores := by
  refine ⟨by rw [assignTiers_eq, List.length_map], ?_, ?_, min_le_count_best scores, ?_⟩
  · intro pool hperm i j x hi hj
    rw [assignTiers_eq, assignTiers_eq, List.getElem?_map, List.getElem?_map, hi, hj,
      tierOf_perm hperm]
  · intro i j x y t u hi hj hlt ht hu
    rw [assignTiers_eq, List.getElem?_map, hi] at ht
    rw [assignTiers_eq, List.getElem?_map, hj] at hu
    rw [← Option.some.inj ht, ← Option.some.inj hu]
    exact badness_tierOf hlt.le
  · intro a b ha
    rw [assignTiers_eq, assignTiers_eq, List.map_map]
    exact List.map_congr_left fun x _ => tierOf_affine ha x

end MailVerdict.Analysis.TieredHits
