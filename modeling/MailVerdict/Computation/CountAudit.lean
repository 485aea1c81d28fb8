import Mathlib.Data.List.Nodup
import Mathlib.Data.List.Count
import Mathlib.Data.Int.Order.Basic

/-!
# Auditing a table by counts

Work rows are written for items, and whether every item is settled is asked of counts
alone: so many items, so many rows, so many items covered without a row of their own.
Counts cannot say whose row a row is. The audit shows nothing remaining as soon as the credits
with no settled item behind them (`surplus`) are as many as the unsettled items
(`remaining_eq_zero_iff`); without such credits it is to be believed
(`settled_of_surplus_nonpos`).
-/

namespace MailVerdict.Computation

universe u v

structure CountAudit (α : Type u) (β : Type v) where
  items : List α
  rows : List β
  settled : α → Bool
  covered : α → Bool
  settles : β → Bool

namespace CountAudit

variable {α : Type u} {β : Type v} (A : CountAudit α β)

def remaining : ℤ := max (A.items.length - A.rows.length - A.items.countP A.covered) 0

def unsettled : ℕ := A.items.countP fun a => !A.settled a

def idleRows : ℕ := A.rows.countP fun b => !A.settles b

/-- Items that count as covered and are not settled. -/
def idleCovers : ℕ := A.items.countP fun a => A.covered a && !A.settled a

/-- Settled items whose only credit can be a row. -/
def settledByRow : ℕ := A.items.countP fun a => A.settled a && !A.covered a

/-- The credits with no settled item of their own behind them: idle rows, idle covers, and
the rows that settle an item beyond one for each item settled by a row. -/
def surplus : ℤ :=
  A.idleRows + A.idleCovers + ((A.rows.countP A.settles : ℤ) - A.settledByRow)

theorem countP_split (l : List α) (p q : α → Bool) :
    l.countP p = l.countP (fun a => p a && q a) + l.countP (fun a => p a && !q a) := by
  induction l with
  | nil => rfl
  | cons a l ih =>
    simp only [List.countP_cons]
    rw [ih]
    cases p a <;> cases q a <;> simp <;> omega

theorem length_split (l : List α) (p : α → Bool) :
    l.length = l.countP p + l.countP (fun a => !p a) := by
  have h := countP_split l (fun _ => true) p
  simpa using h

theorem length_rows : A.rows.length = A.rows.countP A.settles + A.idleRows :=
  length_split A.rows A.settles

theorem countP_covered :
    A.items.countP A.covered =
      A.items.countP (fun a => A.settled a && A.covered a) + A.idleCovers := by
  rw [countP_split A.items A.covered A.settled, idleCovers]
  congr 2
  funext a
  exact Bool.and_comm _ _

theorem length_items :
    A.items.length =
      A.items.countP (fun a => A.settled a && A.covered a) + A.settledByRow + A.unsettled := by
  rw [length_split A.items A.settled, countP_split A.items A.settled A.covered]
  rfl

theorem unsettled_eq_zero_iff : A.unsettled = 0 ↔ ∀ a ∈ A.items, A.settled a = true := by
  unfold unsettled
  rw [List.countP_eq_zero]
  refine forall₂_congr fun a _ => ?_
  simp

theorem remaining_eq_zero_iff : A.remaining = 0 ↔ (A.unsettled : ℤ) ≤ A.surplus := by
  have hrows := A.length_rows
  have hcovered := A.countP_covered
  have hitems := A.length_items
  unfold remaining surplus
  omega

/-- Where no credit stands without a settled item, an audit that shows nothing remaining is
right. -/
theorem settled_of_surplus_nonpos (hsurplus : A.surplus ≤ 0) (h : A.remaining = 0) :
    ∀ a ∈ A.items, A.settled a = true := by
  have hle := A.remaining_eq_zero_iff.1 h
  exact A.unsettled_eq_zero_iff.1 (by omega)

end CountAudit

end MailVerdict.Computation
