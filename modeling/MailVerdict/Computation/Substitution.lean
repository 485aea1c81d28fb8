import Mathlib.Tactic.Linarith
import MailVerdict.Computation.TextPatterns

/-!
# Rewriting the finds of a pattern

`replaceAll` goes through a list as `findAll` does and puts a text of its own in the place of each
find. Where every find starts with one mark that stands nowhere else in it, both are read off the
list from the left, one character or one find at a time, which is an induction principle.
-/

namespace MailVerdict.Computation.Substitution

open Computation.TextPatterns (findAll)

universe u

variable {β : Type u}

/-- The text with each find rewritten; `skip` characters of the last find are still to be passed. -/
def replaceAll (scan : List Char → Option (β × ℕ)) (render : β → List Char) :
    ℕ → List Char → List Char
  | _, [] => []
  | skip + 1, _ :: rest => replaceAll scan render skip rest
  | 0, c :: rest =>
    match scan (c :: rest) with
    | some (found, n) => render found ++ replaceAll scan render (n - 1) rest
    | none => c :: replaceAll scan render 0 rest

/-- A find is a mark and what follows it, and the mark is not in that again. -/
def Headed (mark : Char) (scan : List Char → Option (β × ℕ)) : Prop :=
  ∀ text x n, scan text = some (x, n) →
    ∃ find post, text = mark :: (find ++ post) ∧ n = find.length + 1 ∧ mark ∉ find

section
variable {scan : List Char → Option (β × ℕ)} {render : β → List Char} {mark : Char}

theorem findAll_append (find post : List Char) :
    findAll scan find.length (find ++ post) = findAll scan 0 post := by
  induction find with
  | nil => rfl
  | cons c find ih => exact ih

theorem replaceAll_append (find post : List Char) :
    replaceAll scan render find.length (find ++ post) = replaceAll scan render 0 post := by
  induction find with
  | nil => rfl
  | cons c find ih => exact ih

theorem findAll_none {c : Char} {rest : List Char} (h : scan (c :: rest) = none) :
    findAll scan 0 (c :: rest) = findAll scan 0 rest := by
  simp only [findAll, h]

theorem replaceAll_none {c : Char} {rest : List Char} (h : scan (c :: rest) = none) :
    replaceAll scan render 0 (c :: rest) = c :: replaceAll scan render 0 rest := by
  simp only [replaceAll, h]

theorem findAll_find {find post : List Char} {x : β}
    (h : scan (mark :: (find ++ post)) = some (x, find.length + 1)) :
    findAll scan 0 (mark :: (find ++ post)) = x :: findAll scan 0 post := by
  simp only [findAll, h, Nat.add_sub_cancel, findAll_append]

theorem replaceAll_find {find post : List Char} {x : β}
    (h : scan (mark :: (find ++ post)) = some (x, find.length + 1)) :
    replaceAll scan render 0 (mark :: (find ++ post)) =
      render x ++ replaceAll scan render 0 post := by
  simp only [replaceAll, h, Nat.add_sub_cancel, replaceAll_append]

/-- **A text from the left**, one character that starts no find or one find at a time. -/
theorem finds_induction (hscan : Headed mark scan) {P : List Char → Prop} (hnil : P [])
    (hnone : ∀ c rest, scan (c :: rest) = none → P rest → P (c :: rest))
    (hfind : ∀ find post x, scan (mark :: (find ++ post)) = some (x, find.length + 1) →
      mark ∉ find → P post → P (mark :: (find ++ post))) (text : List Char) : P text := by
  have hall : ∀ n (text : List Char), text.length ≤ n → P text := by
    intro n
    induction n with
    | zero =>
      intro text h
      rwa [List.length_eq_zero_iff.1 (Nat.le_zero.1 h)]
    | succ n ih =>
      intro text h
      cases text with
      | nil => exact hnil
      | cons c rest =>
        cases hs : scan (c :: rest) with
        | none => exact hnone c rest hs (ih rest (Nat.le_of_succ_le_succ h))
        | some found =>
          obtain ⟨x, n'⟩ := found
          obtain ⟨find, post, heq, rfl, hmark⟩ := hscan _ _ _ hs
          rw [heq] at hs h ⊢
          refine hfind find post x hs hmark (ih post ?_)
          rw [List.length_cons, List.length_append] at h
          omega
  exact hall text.length text (Nat.le_refl _)

theorem takeWhile_replaceAll (hscan : Headed mark scan)
    (hrender : ∀ x, ∃ rest, render x = mark :: rest) (text : List Char) :
    (replaceAll scan render 0 text).takeWhile (· != mark) = text.takeWhile (· != mark) := by
  induction text using finds_induction hscan with
  | hnil => rfl
  | hnone c rest hs ih =>
    rw [replaceAll_none hs, List.takeWhile_cons, List.takeWhile_cons, ih]
  | hfind find post x hs hmark ih =>
    obtain ⟨rest, hrest⟩ := hrender x
    rw [replaceAll_find hs, hrest, List.cons_append, List.takeWhile_cons, List.takeWhile_cons]
    simp

theorem length_replaceAll (hscan : Headed mark scan) {more : ℕ}
    (hrender : ∀ text x n, scan text = some (x, n) → (render x).length = n + more)
    (text : List Char) :
    (replaceAll scan render 0 text).length =
      text.length + more * (findAll scan 0 text).length := by
  induction text using finds_induction hscan with
  | hnil => rfl
  | hnone c rest hs ih =>
    rw [replaceAll_none hs, findAll_none hs, List.length_cons, List.length_cons, ih]
    omega
  | hfind find post x hs hmark ih =>
    rw [replaceAll_find hs, findAll_find hs, List.length_append, hrender _ _ _ hs, ih,
      List.length_cons, List.length_cons, List.length_append]
    linarith

end

end MailVerdict.Computation.Substitution
