import MailVerdict.Computation.JsonTree

/-!
# Equality of JSON values

Values compared as a language does whose booleans are numbers: `eqNum` says which numbers are equal
and `ofBool` which number a boolean is. Objects are equal when each has the other's keys, with equal
values, in whatever order. Nothing is assumed of `eqNum`, so a value need not equal itself.
-/

namespace MailVerdict.Computation.Json

universe u

variable {N : Type u}

mutual

def equal (eqNum : N → N → Bool) (ofBool : Bool → N) : Json N → Json N → Bool
  | .null, .null => true
  | .bool a, .bool b => decide (a = b)
  | .bool a, .num n => eqNum (ofBool a) n
  | .num m, .bool b => eqNum m (ofBool b)
  | .num m, .num n => eqNum m n
  | .str s, .str t => decide (s = t)
  | .arr items, .arr items' => equalItems eqNum ofBool items items'
  | .obj fields, .obj fields' =>
    equalFields eqNum ofBool fields fields' && fields'.all fun e => (get? e.1 fields).isSome
  | _, _ => false

def equalItems (eqNum : N → N → Bool) (ofBool : Bool → N) : List (Json N) → List (Json N) → Bool
  | [], [] => true
  | a :: l, b :: m => equal eqNum ofBool a b && equalItems eqNum ofBool l m
  | _, _ => false

/-- Every entry stands in the other object. -/
def equalFields (eqNum : N → N → Bool) (ofBool : Bool → N) :
    List (String × Json N) → List (String × Json N) → Bool
  | [], _ => true
  | (k, v) :: l, m =>
    (match get? k m with
      | some w => equal eqNum ofBool v w
      | none => false) && equalFields eqNum ofBool l m

end

theorem mem_of_get? {α : Type u} {k : String} {l : List (String × α)} {v : α}
    (h : get? k l = some v) : (k, v) ∈ l := by
  induction l with
  | nil => cases h
  | cons e l ih =>
    unfold get? at h
    split at h
    · rename_i hk
      rw [← hk, ← Option.some.inj h]
      exact List.mem_cons_self
    · exact List.mem_cons_of_mem e (ih h)

section Equality

variable {eqNum : N → N → Bool} {ofBool : Bool → N}

theorem equal_str {s : String} {v : Json N} (h : equal eqNum ofBool (.str s) v = true) :
    v = .str s := by
  cases v <;> simp_all [equal]

theorem eq_of_equal_str {s : String} {v : Json N} (h : equal eqNum ofBool v (.str s) = true) :
    v = .str s := by
  cases v <;> simp_all [equal]

theorem equalItems_iff {l m : List (Json N)} :
    equalItems eqNum ofBool l m = true ↔
      List.Forall₂ (fun a b => equal eqNum ofBool a b = true) l m := by
  induction l generalizing m with
  | nil => cases m <;> simp [equalItems]
  | cons a l ih =>
    cases m with
    | nil => simp [equalItems]
    | cons b m => simp [equalItems, ih]

theorem equal_of_arr {m : List (Json N)} {v : Json N} (h : equal eqNum ofBool v (.arr m) = true) :
    ∃ l, v = .arr l ∧ List.Forall₂ (fun a b => equal eqNum ofBool a b = true) l m := by
  cases v with
  | arr l => exact ⟨l, rfl, equalItems_iff.1 (by simpa [equal] using h)⟩
  | _ => simp [equal] at h

theorem equal_of_obj {g : List (String × Json N)} {v : Json N}
    (h : equal eqNum ofBool v (.obj g) = true) :
    ∃ f, v = .obj f ∧ equal eqNum ofBool (.obj f) (.obj g) = true := by
  cases v with
  | obj f => exact ⟨f, rfl, h⟩
  | _ => simp [equal] at h

theorem equalFields_mem {f g : List (String × Json N)} (h : equalFields eqNum ofBool f g = true)
    {k : String} {v : Json N} (hv : (k, v) ∈ f) :
    ∃ w, get? k g = some w ∧ equal eqNum ofBool v w = true := by
  induction f with
  | nil => cases hv
  | cons e f ih =>
    unfold equalFields at h
    rw [Bool.and_eq_true] at h
    obtain ⟨hfirst, hrest⟩ := h
    rcases List.mem_cons.1 hv with heq | hv
    · subst heq
      cases hget : get? k g with
      | none => rw [hget] at hfirst; cases hfirst
      | some w => exact ⟨w, rfl, by rw [hget] at hfirst; exact hfirst⟩
    · exact ih hrest hv

theorem get?_of_equal {f g : List (String × Json N)} {k : String} {v : Json N}
    (h : equal eqNum ofBool (.obj f) (.obj g) = true) (hv : get? k f = some v) :
    ∃ w, get? k g = some w ∧ equal eqNum ofBool v w = true := by
  unfold equal at h
  rw [Bool.and_eq_true] at h
  exact equalFields_mem h.1 (mem_of_get? hv)

theorem get?_of_equal' {f g : List (String × Json N)} {k : String} {w : Json N}
    (h : equal eqNum ofBool (.obj f) (.obj g) = true) (hw : get? k g = some w) :
    ∃ v, get? k f = some v ∧ equal eqNum ofBool v w = true := by
  have hsome : (get? k f).isSome = true := by
    unfold equal at h
    rw [Bool.and_eq_true] at h
    exact List.all_eq_true.1 h.2 (k, w) (mem_of_get? hw)
  obtain ⟨v, hv⟩ := Option.isSome_iff_exists.1 hsome
  obtain ⟨w', hw', hequal⟩ := get?_of_equal h hv
  rw [hw] at hw'
  exact ⟨v, hv, Option.some.inj hw' ▸ hequal⟩

end Equality

end MailVerdict.Computation.Json
