import Mathlib.Data.List.Basic

/-!
# Matching with preference

A pattern tried at the start of a text gives what it can leave of it, in the order a backtracking
matcher prefers: a repetition takes as much as it can first, an alternative its left side.
-/

namespace MailVerdict.Computation

universe u

inductive Regex (α : Type u) where
  | empty
  | one (p : α → Bool)
  | many (p : α → Bool)
  | seq (first second : Regex α)
  | alt (first second : Regex α)

namespace Regex

variable {α : Type u}

/-- What can be left of the text, the preferred rest first. -/
def rests : Regex α → List α → List (List α)
  | .empty, text => [text]
  | .one _, [] => []
  | .one p, c :: text => if p c then [text] else []
  | .many p, text =>
    (List.range ((text.takeWhile p).length + 1)).reverse.map fun n => text.drop n
  | .seq first second, text => (first.rests text).flatMap second.rests
  | .alt first second, text => first.rests text ++ second.rests text

def matchRest (pattern : Regex α) (text : List α) : Option (List α) := (pattern.rests text).head?

def fullmatch (pattern : Regex α) (text : List α) : Bool :=
  (pattern.rests text).any List.isEmpty

/-- `p?` -/
def maybe (pattern : Regex α) : Regex α := .alt pattern .empty

/-- A word, each of its letters read by `letter`. -/
def word (letter : α → α → Bool) : List α → Regex α
  | [] => .empty
  | c :: letters => .seq (.one (letter c)) (word letter letters)

/-- One pattern or the other, the first that matches. -/
def oneOf : Regex α → List (Regex α) → Regex α
  | pattern, [] => pattern
  | pattern, next :: others => .alt pattern (oneOf next others)

theorem suffix_of_mem_rests {pattern : Regex α} {text rest : List α}
    (h : rest ∈ pattern.rests text) : rest <:+ text := by
  induction pattern generalizing text rest with
  | empty =>
    obtain rfl := List.mem_singleton.1 h
    exact List.suffix_refl rest
  | one p =>
    cases text with
    | nil => exact absurd h List.not_mem_nil
    | cons c text =>
      rw [rests] at h
      split at h
      · rw [List.mem_singleton.1 h]
        exact List.suffix_cons c text
      · exact absurd h List.not_mem_nil
  | many p =>
    obtain ⟨n, -, rfl⟩ := List.mem_map.1 h
    exact List.drop_suffix n text
  | seq first second ihfirst ihsecond =>
    obtain ⟨mid, hmid, hrest⟩ := List.mem_flatMap.1 h
    exact (ihsecond hrest).trans (ihfirst hmid)
  | alt first second ihfirst ihsecond =>
    rcases List.mem_append.1 h with h | h
    · exact ihfirst h
    · exact ihsecond h

theorem matchRest_suffix {pattern : Regex α} {text rest : List α}
    (h : pattern.matchRest text = some rest) : rest <:+ text :=
  suffix_of_mem_rests (List.mem_of_mem_head? h)

end Regex

end MailVerdict.Computation
