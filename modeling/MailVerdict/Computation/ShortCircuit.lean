import Mathlib.Tactic.Common

/-!
# Short-circuit evaluation

Trees of `all`, `any` and `not` over leaves whose evaluation may fail. A list is evaluated from its
left and only as far as it decides (`eval`), so a leaf that fails does so only where it is reached:
every earlier member of each `all` above it holds, and none of each `any` (`Reached`). A tree is
evaluated exactly when every leaf it reaches is (`eval_ok_iff`), and then to its truth
(`truth_of_eval`).
-/

namespace MailVerdict.Computation.ShortCircuit

universe u v

inductive BoolTree (L : Type u) where
  | leaf (l : L)
  | all (ts : List (BoolTree L))
  | any (ts : List (BoolTree L))
  | not (t : BoolTree L)

variable {L : Type u} {E : Type v}

mutual

def eval (f : L → Except E Bool) : BoolTree L → Except E Bool
  | .leaf l => f l
  | .all ts => evalAll f ts
  | .any ts => evalAny f ts
  | .not t => (eval f t).map Bool.not

def evalAll (f : L → Except E Bool) : List (BoolTree L) → Except E Bool
  | [] => .ok true
  | t :: ts =>
    match eval f t with
    | .ok true => evalAll f ts
    | .ok false => .ok false
    | .error e => .error e

def evalAny (f : L → Except E Bool) : List (BoolTree L) → Except E Bool
  | [] => .ok false
  | t :: ts =>
    match eval f t with
    | .ok true => .ok true
    | .ok false => evalAny f ts
    | .error e => .error e

end

mutual

/-- What a tree says when its leaves say `h`. -/
def truth (h : L → Bool) : BoolTree L → Bool
  | .leaf l => h l
  | .all ts => truthAll h ts
  | .any ts => truthAny h ts
  | .not t => !truth h t

def truthAll (h : L → Bool) : List (BoolTree L) → Bool
  | [] => true
  | t :: ts => truth h t && truthAll h ts

def truthAny (h : L → Bool) : List (BoolTree L) → Bool
  | [] => false
  | t :: ts => truth h t || truthAny h ts

end

mutual

/-- The leaves an evaluation comes to, where leaves say `h`. -/
def Reached (h : L → Bool) : BoolTree L → L → Prop
  | .leaf l', l => l' = l
  | .all ts, l => ReachedAll h ts l
  | .any ts, l => ReachedAny h ts l
  | .not t, l => Reached h t l

def ReachedAll (h : L → Bool) : List (BoolTree L) → L → Prop
  | [], _ => False
  | t :: ts, l => Reached h t l ∨ (truth h t = true ∧ ReachedAll h ts l)

def ReachedAny (h : L → Bool) : List (BoolTree L) → L → Prop
  | [], _ => False
  | t :: ts, l => Reached h t l ∨ (truth h t = false ∧ ReachedAny h ts l)

end

section Evaluation

variable {f : L → Except E Bool} {h : L → Bool}

theorem map_not_ok {r : Except E Bool} {b : Bool} : r.map Bool.not = .ok b ↔ r = .ok (!b) := by
  cases r with
  | error e => exact Iff.intro (fun hr => by cases hr) (fun hr => by cases hr)
  | ok c => cases b <;> cases c <;> simp [Except.map]

mutual

theorem truth_of_eval (hf : ∀ l b, f l = .ok b → h l = b) :
    ∀ (t : BoolTree L) (b : Bool), eval f t = .ok b → truth h t = b
  | .leaf l, b, hb => hf l b hb
  | .all ts, b, hb => truthAll_of_eval hf ts b hb
  | .any ts, b, hb => truthAny_of_eval hf ts b hb
  | .not t, b, hb => by
      have ht := truth_of_eval hf t (!b) (map_not_ok.1 hb)
      rw [truth, ht, Bool.not_not]

theorem truthAll_of_eval (hf : ∀ l b, f l = .ok b → h l = b) :
    ∀ (ts : List (BoolTree L)) (b : Bool), evalAll f ts = .ok b → truthAll h ts = b
  | [], b, hb => Except.ok.inj hb
  | t :: ts, b, hb => by
      rw [evalAll] at hb
      split at hb
      · rename_i htrue
        rw [truthAll, truth_of_eval hf t true htrue, truthAll_of_eval hf ts b hb, Bool.true_and]
      · rename_i hfalse
        rw [truthAll, truth_of_eval hf t false hfalse, Bool.false_and]
        exact Except.ok.inj hb
      · cases hb

theorem truthAny_of_eval (hf : ∀ l b, f l = .ok b → h l = b) :
    ∀ (ts : List (BoolTree L)) (b : Bool), evalAny f ts = .ok b → truthAny h ts = b
  | [], b, hb => Except.ok.inj hb
  | t :: ts, b, hb => by
      rw [evalAny] at hb
      split at hb
      · rename_i htrue
        rw [truthAny, truth_of_eval hf t true htrue, Bool.true_or]
        exact Except.ok.inj hb
      · rename_i hfalse
        rw [truthAny, truth_of_eval hf t false hfalse, truthAny_of_eval hf ts b hb, Bool.false_or]
      · cases hb

end

mutual

/-- **A tree is evaluated exactly when every leaf it reaches is.** -/
theorem eval_ok_iff (hf : ∀ l b, f l = .ok b → h l = b) :
    ∀ t : BoolTree L, (∃ b, eval f t = .ok b) ↔ ∀ l, Reached h t l → ∃ b, f l = .ok b
  | .leaf l => Iff.intro (fun ht l' hl' => hl' ▸ ht) (fun ht => ht l rfl)
  | .all ts => evalAll_ok_iff hf ts
  | .any ts => evalAny_ok_iff hf ts
  | .not t => by
      rw [show (∀ l, Reached h (.not t) l → ∃ b, f l = .ok b) ↔ ∃ b, eval f t = .ok b from
        (eval_ok_iff hf t).symm]
      constructor
      · rintro ⟨b, hb⟩
        exact ⟨!b, map_not_ok.1 hb⟩
      · rintro ⟨b, hb⟩
        exact ⟨!b, map_not_ok.2 (by rw [Bool.not_not]; exact hb)⟩

theorem evalAll_ok_iff (hf : ∀ l b, f l = .ok b → h l = b) :
    ∀ ts : List (BoolTree L),
      (∃ b, evalAll f ts = .ok b) ↔ ∀ l, ReachedAll h ts l → ∃ b, f l = .ok b
  | [] => Iff.intro (fun _ _ hl => hl.elim) (fun _ => ⟨true, rfl⟩)
  | t :: ts => by
      have hfirst := eval_ok_iff hf t
      have hrest := evalAll_ok_iff hf ts
      rw [evalAll]
      cases ht : eval f t with
      | error e =>
        refine Iff.intro (fun hb => by obtain ⟨b, hb⟩ := hb; cases hb) (fun hall => ?_)
        obtain ⟨b, hb⟩ := hfirst.2 fun l hl => hall l (Or.inl hl)
        rw [ht] at hb
        cases hb
      | ok c =>
        have hc := truth_of_eval hf t c ht
        cases c with
        | false =>
          refine Iff.intro (fun _ l hl => ?_) (fun _ => ⟨false, rfl⟩)
          rcases hl with hl | ⟨htrue, -⟩
          · exact hfirst.1 ⟨false, ht⟩ l hl
          · rw [hc] at htrue
            cases htrue
        | true =>
          refine Iff.intro (fun hb l hl => ?_) (fun hall => ?_)
          · rcases hl with hl | ⟨-, hl⟩
            · exact hfirst.1 ⟨true, ht⟩ l hl
            · exact hrest.1 hb l hl
          · exact hrest.2 fun l hl => hall l (Or.inr ⟨hc, hl⟩)

theorem evalAny_ok_iff (hf : ∀ l b, f l = .ok b → h l = b) :
    ∀ ts : List (BoolTree L),
      (∃ b, evalAny f ts = .ok b) ↔ ∀ l, ReachedAny h ts l → ∃ b, f l = .ok b
  | [] => Iff.intro (fun _ _ hl => hl.elim) (fun _ => ⟨false, rfl⟩)
  | t :: ts => by
      have hfirst := eval_ok_iff hf t
      have hrest := evalAny_ok_iff hf ts
      rw [evalAny]
      cases ht : eval f t with
      | error e =>
        refine Iff.intro (fun hb => by obtain ⟨b, hb⟩ := hb; cases hb) (fun hall => ?_)
        obtain ⟨b, hb⟩ := hfirst.2 fun l hl => hall l (Or.inl hl)
        rw [ht] at hb
        cases hb
      | ok c =>
        have hc := truth_of_eval hf t c ht
        cases c with
        | true =>
          refine Iff.intro (fun _ l hl => ?_) (fun _ => ⟨true, rfl⟩)
          rcases hl with hl | ⟨hfalse, -⟩
          · exact hfirst.1 ⟨true, ht⟩ l hl
          · rw [hc] at hfalse
            cases hfalse
        | false =>
          refine Iff.intro (fun hb l hl => ?_) (fun hall => ?_)
          · rcases hl with hl | ⟨-, hl⟩
            · exact hfirst.1 ⟨false, ht⟩ l hl
            · exact hrest.1 hb l hl
          · exact hrest.2 fun l hl => hall l (Or.inr ⟨hc, hl⟩)

end

end Evaluation

end MailVerdict.Computation.ShortCircuit
