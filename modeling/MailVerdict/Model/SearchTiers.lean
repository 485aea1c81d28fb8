import Mathlib.Data.List.Sort
import Mathlib.Algebra.Order.Ring.Rat

/-!
# Search tiers

`embeddings/search.py`: which tier of a semantic search each hit of the pool lands in, from its
score and the spread of the pool. Scores are exact.
-/

namespace MailVerdict.Model.SearchTiers

/-- `Tier`: 1 is likely, 2 less likely. -/
inductive Tier
  | one
  | two
  deriving DecidableEq

def tier1Min : ℚ := 55 / 100

def tier2Min : ℚ := 25 / 100

/-- `sorted(scores, reverse=True)`. -/
def ranked (scores : List ℚ) : List ℚ := scores.mergeSort fun a b => decide (b ≤ a)

def anchor (scores : List ℚ) : ℚ := (ranked scores).getD 2 0

def background (scores : List ℚ) : ℚ := (ranked scores).getD (scores.length / 2) 0

def span (scores : List ℚ) : ℚ := anchor scores - background scores

/-- `tier`, of a pool with a spread. `none` is dropped. -/
def tier (scores : List ℚ) (score : ℚ) : Option Tier :=
  let position := (score - background scores) / span scores
  if tier1Min ≤ position then some .one
  else if tier2Min ≤ position then some .two
  else none

def assignTiers (scores : List ℚ) : List (Option Tier) :=
  if scores.length ≤ 3 then List.replicate scores.length (some .one)
  else if span scores ≤ 0 then List.replicate scores.length (some .one)
  else scores.map (tier scores)

end MailVerdict.Model.SearchTiers
