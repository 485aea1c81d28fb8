import Mathlib.Data.List.Basic
import Mathlib.Data.List.TakeWhile

/-!
# The lines of a text

`textLines` are the lines of a text whose last line may or may not end with a line feed; a text
is taken apart line by line with `lines_induction`. `weave` puts groups of further lines before
the lines and after the last one.
-/

namespace MailVerdict.Computation

abbrev TextLine := List Char

def consFirst (c : Char) : List TextLine → List TextLine
  | [] => [[c]]
  | line :: lines => (c :: line) :: lines

/-- The lines of a text; a final line feed ends the last line. -/
def textLines : List Char → List TextLine
  | [] => []
  | c :: cs => if c = '\n' then [] :: textLines cs else consFirst c (textLines cs)

def Ended (text : List Char) : Prop := text = [] ∨ text.getLast? = some '\n'

instance (text : List Char) : Decidable (Ended text) := by
  unfold Ended
  infer_instance

@[simp] theorem textLines_nil : textLines [] = [] := rfl

theorem textLines_line {line rest : List Char} (h : '\n' ∉ line) :
    textLines (line ++ '\n' :: rest) = line :: textLines rest := by
  induction line with
  | nil => rfl
  | cons c line ih =>
    obtain ⟨hc, hline⟩ := not_or.1 (fun hor => h (List.mem_cons.2 hor))
    rw [List.cons_append, textLines, if_neg (fun heq => hc heq.symm), ih hline]
    rfl

theorem textLines_last {line : List Char} (h : '\n' ∉ line) (hne : line ≠ []) :
    textLines line = [line] := by
  induction line with
  | nil => exact absurd rfl hne
  | cons c line ih =>
    obtain ⟨hc, hline⟩ := not_or.1 (fun hor => h (List.mem_cons.2 hor))
    rw [textLines, if_neg (fun heq => hc heq.symm)]
    by_cases hnil : line = []
    · rw [hnil]
      rfl
    · rw [ih hline hnil]
      rfl

theorem lines_induction {P : List Char → Prop} (hnil : P [])
    (hlast : ∀ line, '\n' ∉ line → line ≠ [] → P line)
    (hline : ∀ line rest, '\n' ∉ line → P rest → P (line ++ '\n' :: rest)) (text : List Char) :
    P text := by
  by_cases hmem : '\n' ∈ text
  · obtain ⟨line, rest, heq, hnot⟩ := List.eq_append_cons_of_mem hmem
    rw [heq]
    exact hline line rest hnot (lines_induction hnil hlast hline rest)
  · by_cases hne : text = []
    · exact hne ▸ hnil
    · exact hlast text hmem hne
termination_by text.length
decreasing_by
  rw [heq, List.length_append, List.length_cons]
  omega

theorem ended_line {line rest : List Char} : Ended (line ++ '\n' :: rest) ↔ Ended rest := by
  unfold Ended
  cases rest with
  | nil => simp
  | cons c rest => simp [List.getLast?_append]

theorem not_ended_last {line : List Char} (h : '\n' ∉ line) (hne : line ≠ []) : ¬ Ended line := by
  rintro (hnil | hlast)
  · exact hne hnil
  · exact h (List.mem_of_getLast? hlast)

/-- Groups of lines before each line and after the last one. -/
def weave : (ℕ → List TextLine) → List TextLine → List TextLine
  | groups, [] => groups 0
  | groups, line :: lines => groups 0 ++ line :: weave (fun i => groups (i + 1)) lines

theorem weave_inj {groups groups' : ℕ → List TextLine} {lines : List TextLine}
    (hlen : ∀ i, (groups i).length = (groups' i).length)
    (h : weave groups lines = weave groups' lines) : ∀ i ≤ lines.length, groups i = groups' i := by
  induction lines generalizing groups groups' with
  | nil =>
    intro i hi
    obtain rfl := Nat.le_zero.1 hi
    exact h
  | cons line lines ih =>
    obtain ⟨hfirst, hrest⟩ := List.append_inj h (hlen 0)
    intro i hi
    cases i with
    | zero => exact hfirst
    | succ i =>
      exact ih (fun j => hlen (j + 1)) (List.cons.inj hrest).2 i (Nat.le_of_succ_le_succ hi)

end MailVerdict.Computation
