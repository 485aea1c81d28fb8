import Mathlib.Data.List.Sort
import Mathlib.Data.String.Basic

/-!
# JSON trees

A JSON value over any type of numbers, its objects as their entries in the order they were
written. A store that keeps objects by key gives a value back rebuilt: each number as the
store writes it, and each object's entries sorted by key, the shorter key first
(`rebuild`). Reading a key is the same before and after (`get?_rebuild`), rebuilding twice
is rebuilding once (`rebuild_rebuild`), and two rebuilds of one value agree exactly when
they agree on its numbers (`rebuild_eq_iff`). Values with the same canonical form are the
same whatever the order of their keys (`Same`).
-/

namespace MailVerdict.Computation

universe u

inductive Json (N : Type u) where
  | null
  | bool (b : Bool)
  | num (n : N)
  | str (s : String)
  | arr (items : List (Json N))
  | obj (fields : List (String × Json N))
deriving Repr

namespace Json

variable {N : Type u} {α : Type u}

/-! ### Keys -/

def get? (k : String) : List (String × α) → Option α
  | [] => none
  | e :: l => if e.1 = k then some e.2 else get? k l

/-- Shorter keys first, then by their characters. -/
def keyLe (a b : String × α) : Prop :=
  a.1.utf8ByteSize < b.1.utf8ByteSize ∨ (a.1.utf8ByteSize = b.1.utf8ByteSize ∧ a.1 ≤ b.1)

instance : DecidableRel (keyLe (α := α)) := fun _ _ => inferInstanceAs (Decidable (_ ∨ _))

instance : Std.Total (keyLe (α := α)) where
  total a b := by
    rcases Nat.lt_trichotomy a.1.utf8ByteSize b.1.utf8ByteSize with h | h | h
    · exact Or.inl (Or.inl h)
    · rcases le_total a.1 b.1 with hle | hle
      · exact Or.inl (Or.inr ⟨h, hle⟩)
      · exact Or.inr (Or.inr ⟨h.symm, hle⟩)
    · exact Or.inr (Or.inl h)

instance : IsTrans (String × α) keyLe where
  trans a b c hab hbc := by
    unfold keyLe at *
    rcases hab with hab | ⟨hab, hle⟩
    · rcases hbc with hbc | ⟨hbc, -⟩
      · exact Or.inl (by omega)
      · exact Or.inl (by omega)
    · rcases hbc with hbc | ⟨hbc, hle'⟩
      · exact Or.inl (by omega)
      · exact Or.inr ⟨by omega, le_trans hle hle'⟩

/-- Entries sorted by key; entries of one key stay in order. -/
def sortFields (l : List (String × α)) : List (String × α) := l.insertionSort keyLe

theorem perm_sortFields (l : List (String × α)) : (sortFields l).Perm l :=
  List.perm_insertionSort keyLe l

theorem sortFields_sortFields (l : List (String × α)) : sortFields (sortFields l) = sortFields l :=
  (List.pairwise_insertionSort keyLe l).insertionSort_eq

theorem map_sortFields (f : α → α) (l : List (String × α)) :
    (sortFields l).map (fun e => (e.1, f e.2)) = sortFields (l.map fun e => (e.1, f e.2)) :=
  List.map_insertionSort keyLe keyLe (fun e => (e.1, f e.2)) l fun _ _ _ _ => Iff.rfl

theorem get?_orderedInsert (k : String) (e : String × α) (l : List (String × α)) :
    get? k (l.orderedInsert keyLe e) = get? k (e :: l) := by
  induction l with
  | nil => rfl
  | cons b l ih =>
    rw [List.orderedInsert_cons]
    by_cases hle : keyLe e b
    · rw [if_pos hle]
    · rw [if_neg hle]
      have hne : e.1 ≠ b.1 := fun h => hle (by unfold keyLe; exact Or.inr (by simp [h]))
      show (if b.1 = k then some b.2 else get? k (l.orderedInsert keyLe e)) = _
      rw [ih]
      by_cases hb : b.1 = k
      · have he : e.1 ≠ k := fun h => hne (h.trans hb.symm)
        simp [get?, hb, he]
      · simp [get?, hb]

theorem get?_sortFields (k : String) (l : List (String × α)) :
    get? k (sortFields l) = get? k l := by
  induction l with
  | nil => rfl
  | cons e l ih =>
    show get? k ((l.insertionSort keyLe).orderedInsert keyLe e) = _
    rw [get?_orderedInsert]
    show (if e.1 = k then some e.2 else get? k (sortFields l)) = _
    rw [ih]
    rfl

/-! ### Rebuilding -/

mutual

/-- Each number through `f`, each object's entries sorted. -/
def rebuild (f : N → N) : Json N → Json N
  | .null => .null
  | .bool b => .bool b
  | .num n => .num (f n)
  | .str s => .str s
  | .arr items => .arr (rebuildItems f items)
  | .obj fields => .obj (sortFields (rebuildFields f fields))

def rebuildItems (f : N → N) : List (Json N) → List (Json N)
  | [] => []
  | j :: l => rebuild f j :: rebuildItems f l

def rebuildFields (f : N → N) : List (String × Json N) → List (String × Json N)
  | [] => []
  | (k, v) :: l => (k, rebuild f v) :: rebuildFields f l

end

mutual

/-- Every number satisfies `p`, and every text and key `q`. -/
def all (p : N → Bool) (q : String → Bool) : Json N → Bool
  | .null => true
  | .bool _ => true
  | .num n => p n
  | .str s => q s
  | .arr items => allItems p q items
  | .obj fields => allFields p q fields

def allItems (p : N → Bool) (q : String → Bool) : List (Json N) → Bool
  | [] => true
  | j :: l => all p q j && allItems p q l

def allFields (p : N → Bool) (q : String → Bool) : List (String × Json N) → Bool
  | [] => true
  | (k, v) :: l => q k && all p q v && allFields p q l

end

theorem rebuildItems_eq_map (f : N → N) (l : List (Json N)) :
    rebuildItems f l = l.map (rebuild f) := by
  induction l with
  | nil => rfl
  | cons j l ih => simp [rebuildItems, ih]

theorem rebuildFields_eq_map (f : N → N) (l : List (String × Json N)) :
    rebuildFields f l = l.map fun e => (e.1, rebuild f e.2) := by
  induction l with
  | nil => rfl
  | cons e l ih => simp [rebuildFields, ih]

theorem get?_map (g : α → α) (k : String) (l : List (String × α)) :
    get? k (l.map fun e => (e.1, g e.2)) = (get? k l).map g := by
  induction l with
  | nil => rfl
  | cons e l ih =>
    simp only [List.map_cons, get?]
    split
    · rfl
    · exact ih

theorem get?_rebuild (f : N → N) (k : String) (l : List (String × Json N)) :
    get? k (sortFields (rebuildFields f l)) = (get? k l).map (rebuild f) := by
  rw [get?_sortFields, rebuildFields_eq_map, get?_map]

mutual

theorem rebuild_rebuild (f g : N → N) : ∀ j : Json N, rebuild g (rebuild f j) = rebuild (g ∘ f) j
  | .null => rfl
  | .bool _ => rfl
  | .num _ => rfl
  | .str _ => rfl
  | .arr items => by simp only [rebuild, rebuildItems_rebuildItems f g items]
  | .obj fields => by
      simp only [rebuild]
      rw [rebuildFields_eq_map g, map_sortFields, sortFields_sortFields,
        ← rebuildFields_eq_map, rebuildFields_rebuildFields f g fields]

theorem rebuildItems_rebuildItems (f g : N → N) :
    ∀ l : List (Json N), rebuildItems g (rebuildItems f l) = rebuildItems (g ∘ f) l
  | [] => rfl
  | j :: l => by
      simp only [rebuildItems, rebuild_rebuild f g j, rebuildItems_rebuildItems f g l]

theorem rebuildFields_rebuildFields (f g : N → N) : ∀ l : List (String × Json N),
    rebuildFields g (rebuildFields f l) = rebuildFields (g ∘ f) l
  | [] => rfl
  | (k, v) :: l => by
      simp only [rebuildFields, rebuild_rebuild f g v, rebuildFields_rebuildFields f g l]

end

theorem sortFields_map_inj {g h : α → α} {l : List (String × α)} :
    sortFields (l.map fun e => (e.1, g e.2)) = sortFields (l.map fun e => (e.1, h e.2)) ↔
      (l.map fun e => (e.1, g e.2)) = l.map fun e => (e.1, h e.2) := by
  constructor
  · intro heq
    rw [← map_sortFields, ← map_sortFields] at heq
    refine List.map_congr_left fun e he => ?_
    exact List.map_inj_left.1 heq e ((perm_sortFields l).mem_iff.2 he)
  · intro heq
    rw [heq]

section Numbers

variable [DecidableEq N]

mutual

theorem rebuild_eq_iff (f g : N → N) : ∀ j : Json N,
    rebuild f j = rebuild g j ↔ j.all (fun n => decide (f n = g n)) (fun _ => true) = true
  | .null => by simp [rebuild, all]
  | .bool _ => by simp [rebuild, all]
  | .num _ => by simp [rebuild, all]
  | .str _ => by simp [rebuild, all]
  | .arr items => by
      simp only [rebuild, all, Json.arr.injEq]
      exact rebuildItems_eq_iff f g items
  | .obj fields => by
      simp only [rebuild, all, Json.obj.injEq]
      rw [rebuildFields_eq_map, rebuildFields_eq_map, sortFields_map_inj,
        ← rebuildFields_eq_map, ← rebuildFields_eq_map]
      exact rebuildFields_eq_iff f g fields

theorem rebuildItems_eq_iff (f g : N → N) : ∀ l : List (Json N),
    rebuildItems f l = rebuildItems g l ↔
      allItems (fun n => decide (f n = g n)) (fun _ => true) l = true
  | [] => by simp [rebuildItems, allItems]
  | j :: l => by
      simp only [rebuildItems, allItems, List.cons.injEq, Bool.and_eq_true]
      rw [rebuild_eq_iff f g j, rebuildItems_eq_iff f g l]

theorem rebuildFields_eq_iff (f g : N → N) : ∀ l : List (String × Json N),
    rebuildFields f l = rebuildFields g l ↔
      allFields (fun n => decide (f n = g n)) (fun _ => true) l = true
  | [] => by simp [rebuildFields, allFields]
  | (k, v) :: l => by
      simp only [rebuildFields, allFields, List.cons.injEq, Prod.mk.injEq, true_and,
        Bool.true_and, Bool.and_eq_true]
      rw [rebuild_eq_iff f g v, rebuildFields_eq_iff f g l]

end

end Numbers

/-! ### Values up to the order of keys -/

def canonical : Json N → Json N := rebuild id

/-- Equal as values: the entries of an object may be in any order. -/
def Same (a b : Json N) : Prop := a.canonical = b.canonical

theorem Same.refl (a : Json N) : Same a a := rfl

theorem same_rebuild_iff [DecidableEq N] (f : N → N) (j : Json N) :
    Same (rebuild f j) j ↔ j.all (fun n => decide (f n = n)) (fun _ => true) = true := by
  unfold Same canonical
  rw [rebuild_rebuild, Function.id_comp, rebuild_eq_iff]
  rfl

theorem same_str_iff {j : Json N} {s : String} : Same j (.str s) ↔ j = .str s := by
  cases j <;> simp [Same, canonical, rebuild]

theorem same_bool_iff {j : Json N} {b : Bool} : Same j (.bool b) ↔ j = .bool b := by
  cases j <;> simp [Same, canonical, rebuild]

end Json

end MailVerdict.Computation
