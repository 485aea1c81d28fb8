import Mathlib.Data.Prod.Lex
import Mathlib.Order.WithBot
import MailVerdict.Computation.SortedQueue

/-!
# Conditions and orders of a query

A condition over nullable columns has one of three truth values (`SqlTruth`), and `WHERE` keeps
the rows for which it is true. A term of `ORDER BY` puts NULL before or after every value
(`orderTerm`), a query's order is that of its terms in turn (`sortsBefore`), and of rows that
agree on what is selected `DISTINCT ON` keeps the first (`distinctOn`).

Each order is that of a key in a linear order: the bound of a `WithTop` or `WithBot` is NULL's
place, and a descending term is an order's dual. The lemmas `compare_eq` say which.
-/

namespace MailVerdict.Computation

universe u v

/-- The truth value of a condition, `none` where it is unknown. -/
abbrev SqlTruth := Option Bool

namespace SqlTruth

variable {α : Type u}

def and : SqlTruth → SqlTruth → SqlTruth
  | some false, _ | _, some false => some false
  | some true, some true => some true
  | _, _ => none

def or : SqlTruth → SqlTruth → SqlTruth
  | some true, _ | _, some true => some true
  | some false, some false => some false
  | _, _ => none

def isNull (a : Option α) : SqlTruth := some a.isNone

def isNotNull (a : Option α) : SqlTruth := some a.isSome

def lt [LinearOrder α] : Option α → Option α → SqlTruth
  | some a, some b => some (decide (a < b))
  | _, _ => none

def eq [DecidableEq α] : Option α → Option α → SqlTruth
  | some a, some b => some (decide (a = b))
  | _, _ => none

/-- Whether a `WHERE` keeps the row. -/
def holds : SqlTruth → Bool
  | some b => b
  | none => false

@[simp] theorem holds_and (a b : SqlTruth) : (a.and b).holds = (a.holds && b.holds) := by
  cases a with
  | none => cases b with
    | none => rfl
    | some b => cases b <;> rfl
  | some a => cases a <;> cases b with
    | none => rfl
    | some b => cases b <;> rfl

@[simp] theorem holds_or (a b : SqlTruth) : (a.or b).holds = (a.holds || b.holds) := by
  cases a with
  | none => cases b with
    | none => rfl
    | some b => cases b <;> rfl
  | some a => cases a <;> cases b with
    | none => rfl
    | some b => cases b <;> rfl

@[simp] theorem holds_isNull (a : Option α) : (isNull a).holds = a.isNone := rfl

@[simp] theorem holds_isNotNull (a : Option α) : (isNotNull a).holds = a.isSome := rfl

@[simp] theorem holds_lt_some [LinearOrder α] (a b : α) :
    (lt (some a) (some b)).holds = decide (a < b) := rfl

@[simp] theorem holds_lt_none [LinearOrder α] (b : Option α) : (lt none b).holds = false := rfl

@[simp] theorem holds_eq_some [DecidableEq α] (a b : α) :
    (eq (some a) (some b)).holds = decide (a = b) := rfl

@[simp] theorem holds_eq_none [DecidableEq α] (b : Option α) : (eq none b).holds = false := rfl

end SqlTruth

namespace SqlQuery

inductive Direction
  | asc
  | desc

section Terms

variable {α : Type u} [LinearOrder α]

def orderTerm (direction : Direction) (nullsFirst : Bool) : Option α → Option α → Ordering
  | none, none => .eq
  | none, some _ => if nullsFirst then .lt else .gt
  | some _, none => if nullsFirst then .gt else .lt
  | some a, some b =>
    match direction with
    | .asc => compare a b
    | .desc => compare b a

/-- `ORDER BY e`, which puts NULL last. -/
def asc : Option α → Option α → Ordering := orderTerm .asc false

/-- `ORDER BY e DESC`, which puts NULL first. -/
def desc : Option α → Option α → Ordering := orderTerm .desc true

def descNullsLast : Option α → Option α → Ordering := orderTerm .desc false

/-- A value among those with NULL above them all. -/
def nullHigh (a : Option α) : WithTop α := a

/-- A value among those with NULL below them all. -/
def nullLow (a : Option α) : WithBot α := a

omit [LinearOrder α] in
@[simp] theorem nullHigh_none : nullHigh (none : Option α) = ⊤ := rfl

omit [LinearOrder α] in
@[simp] theorem nullHigh_some (a : α) : nullHigh (some a) = (a : WithTop α) := rfl

omit [LinearOrder α] in
@[simp] theorem nullLow_none : nullLow (none : Option α) = ⊥ := rfl

omit [LinearOrder α] in
@[simp] theorem nullLow_some (a : α) : nullLow (some a) = (a : WithBot α) := rfl

theorem desc_eq_compare (a b : Option α) : desc a b = compare (nullHigh b) (nullHigh a) := by
  have hcoe : ∀ x y : α, compare (x : WithTop α) (y : WithTop α) = compare x y := fun x y => by
    rcases lt_trichotomy x y with h | h | h
    · rw [compare_lt_iff_lt.2 h, compare_lt_iff_lt.2 (WithTop.coe_lt_coe.2 h)]
    · rw [compare_eq_iff_eq.2 h, compare_eq_iff_eq.2 (congrArg _ h)]
    · rw [compare_gt_iff_gt.2 h, compare_gt_iff_gt.2 (WithTop.coe_lt_coe.2 h)]
  cases a with
  | none =>
    cases b with
    | none => exact (compare_eq_iff_eq.2 rfl).symm
    | some b => exact (compare_lt_iff_lt.2 (WithTop.coe_lt_top b)).symm
  | some a =>
    cases b with
    | none => exact (compare_gt_iff_gt.2 (WithTop.coe_lt_top a)).symm
    | some b => exact (hcoe b a).symm

theorem asc_eq_swap (a b : Option α) : asc a b = desc b a := by
  cases a <;> cases b <;> rfl

theorem descNullsLast_eq_compare (a b : Option α) :
    descNullsLast a b = compare (nullLow b) (nullLow a) := by
  have hcoe : ∀ x y : α, compare (x : WithBot α) (y : WithBot α) = compare x y := fun x y => by
    rcases lt_trichotomy x y with h | h | h
    · rw [compare_lt_iff_lt.2 h, compare_lt_iff_lt.2 (WithBot.coe_lt_coe.2 h)]
    · rw [compare_eq_iff_eq.2 h, compare_eq_iff_eq.2 (congrArg _ h)]
    · rw [compare_gt_iff_gt.2 h, compare_gt_iff_gt.2 (WithBot.coe_lt_coe.2 h)]
  cases a with
  | none =>
    cases b with
    | none => exact (compare_eq_iff_eq.2 rfl).symm
    | some b => exact (compare_gt_iff_gt.2 (WithBot.bot_lt_coe b)).symm
  | some a =>
    cases b with
    | none => exact (compare_lt_iff_lt.2 (WithBot.bot_lt_coe a)).symm
    | some b => exact (hcoe b a).symm

end Terms

section Orders

variable {R : Type u} {K : Type v}

/-- The order of an `ORDER BY` of several terms. -/
def sortsBefore (terms : List (R → R → Ordering)) (a b : R) : Prop :=
  (terms.foldr (fun t rest => (t a b).then rest) Ordering.eq).isLE = true

instance (terms : List (R → R → Ordering)) : DecidableRel (sortsBefore terms) := fun _ _ => by
  unfold sortsBefore
  infer_instance

/-- `SELECT … WHERE p ORDER BY terms`. -/
def select (p : R → Bool) (terms : List (R → R → Ordering)) (rows : List R) : List R :=
  (rows.filter p).insertionSort (sortsBefore terms)

def distinctOn [DecidableEq K] (f : R → K) : List R → List R
  | [] => []
  | r :: rows => r :: (distinctOn f rows).filter fun x => decide (f x ≠ f r)

theorem sortsBefore_last {A : Type*} [LinearOrder A] {t : R → R → Ordering} {f : R → A}
    (ht : ∀ a b, t a b = compare (f a) (f b)) (a b : R) : sortsBefore [t] a b ↔ f a ≤ f b := by
  rw [sortsBefore, List.foldr_cons, List.foldr_nil, Ordering.then_eq, ht,
    ← Ordering.ne_gt_iff_isLE]
  exact compare_le_iff_le

theorem sortsBefore_cons {A B : Type*} [LinearOrder A] [LinearOrder B] {t : R → R → Ordering}
    {rest : List (R → R → Ordering)} {f : R → A} {g : R → B}
    (ht : ∀ a b, t a b = compare (f a) (f b)) (hrest : ∀ a b, sortsBefore rest a b ↔ g a ≤ g b)
    (a b : R) : sortsBefore (t :: rest) a b ↔ toLex (f a, g a) ≤ toLex (f b, g b) := by
  have htail := hrest a b
  rw [sortsBefore] at htail
  rw [sortsBefore, List.foldr_cons, ht, Prod.Lex.toLex_le_toLex]
  rcases lt_trichotomy (f a) (f b) with h | h | h
  · rw [compare_lt_iff_lt.2 h]
    exact iff_of_true rfl (Or.inl h)
  · rw [compare_eq_iff_eq.2 h, Ordering.eq_then, htail]
    constructor
    · exact fun hle => Or.inr ⟨h, hle⟩
    · rintro (hlt | ⟨-, hle⟩)
      · exact absurd h hlt.ne
      · exact hle
  · rw [compare_gt_iff_gt.2 h]
    refine iff_of_false Bool.false_ne_true ?_
    rintro (hlt | ⟨heq, -⟩)
    · exact absurd h hlt.asymm
    · exact absurd heq h.ne'

theorem compare_swap {A : Type*} [LinearOrder A] (a b : A) :
    compare b a = compare (OrderDual.toDual a) (OrderDual.toDual b) := rfl

theorem dual_pair_lt {A B : Type*} [LinearOrder A] [LinearOrder B] (a b : A) (m n : B) :
    toLex (OrderDual.toDual a, OrderDual.toDual m) < toLex (OrderDual.toDual b, OrderDual.toDual n) ↔
      b < a ∨ a = b ∧ n < m := Prod.Lex.toLex_lt_toLex

theorem mem_distinctOn [DecidableEq K] {f : R → K} {rows : List R} {r : R} :
    r ∈ distinctOn f rows ↔
      ∃ before after, rows = before ++ r :: after ∧ ∀ x ∈ before, f x ≠ f r := by
  induction rows with
  | nil => simp [distinctOn]
  | cons x rows ih =>
    rw [distinctOn, List.mem_cons, List.mem_filter, ih, decide_eq_true_eq]
    constructor
    · rintro (rfl | ⟨⟨before, after, rfl, hbefore⟩, hne⟩)
      · exact ⟨[], rows, rfl, nofun⟩
      · refine ⟨x :: before, after, rfl, fun y hy => ?_⟩
        obtain rfl | hy := List.mem_cons.1 hy
        · exact hne.symm
        · exact hbefore y hy
    · rintro ⟨before, after, heq, hbefore⟩
      cases before with
      | nil =>
        cases heq
        exact Or.inl rfl
      | cons y before =>
        cases heq
        exact Or.inr ⟨⟨before, after, rfl, fun z hz => hbefore z (List.mem_cons_of_mem _ hz)⟩,
          (hbefore x List.mem_cons_self).symm⟩

theorem distinctOn_sublist [DecidableEq K] (f : R → K) (rows : List R) :
    (distinctOn f rows).Sublist rows := by
  induction rows with
  | nil => exact List.Sublist.slnil
  | cons r rows ih =>
    rw [distinctOn]
    exact (List.filter_sublist.trans ih).cons_cons r

end Orders

end SqlQuery

end MailVerdict.Computation
