import MailVerdict.Computation.TextPatterns

/-!
# Plausible identifiers

The shape an order, booking, tracking, invoice or ticket number must have to be stored, and the
form it is compared in. `upper` is `str.upper` of one character, which may give several.
-/

namespace MailVerdict.Model.Identifiers

open Computation.TextPatterns

abbrev Text := List Char

def strip (text : Text) : Text :=
  ((text.dropWhile isSpace).reverse.dropWhile isSpace).reverse

theorem strip_strip (text : Text) : strip (strip text) = strip text := by
  have hprefix : strip text <+: text.dropWhile isSpace :=
    List.rdropWhile_prefix isSpace (text.dropWhile isSpace)
  have hfront : (strip text).dropWhile isSpace = strip text := by
    obtain ⟨rest, hrest⟩ := hprefix
    cases hstrip : strip text with
    | nil => rfl
    | cons c cs =>
      have hhead := List.head?_dropWhile_not isSpace text
      rw [← hrest, hstrip] at hhead
      exact List.dropWhile_cons_of_neg (Bool.eq_false_iff.1 hhead)
  calc strip (strip text)
      = List.rdropWhile isSpace ((strip text).dropWhile isSpace) := rfl
    _ = List.rdropWhile isSpace (strip text) := by rw [hfront]
    _ = strip text := List.rdropWhile_idempotent isSpace (text.dropWhile isSpace)

def isAlnum (c : Char) : Bool := c.isAlpha || c.isDigit

/-- `_NORM_STRIP_RE`. SOURCE: orders/candidates.py:55 -/
def normDropped (c : Char) : Bool :=
  c == ' ' || c == '-' || c == '_' || c == '.' || c == '/' || c == '#'

/-- The characters `_VALID_IDENTIFIER_RE` takes after the first. -/
def identifierChar (c : Char) : Bool :=
  isAlnum c || c == ' ' || c == '.' || c == '/' || c == '_' || c == '#' || c == ':' || c == '-'

/-- `_VALID_IDENTIFIER_RE` on a stripped value: a letter or digit, then 3 to 39 characters.
SOURCE: orders/candidates.py:54 -/
def matchesValid : Text → Bool
  | [] => false
  | c :: cs => isAlnum c && cs.all identifierChar && decide (3 ≤ cs.length) &&
      decide (cs.length ≤ 39)

section
variable (upper : Char → Text)

/-- `normalize_identifier`. SOURCE: orders/candidates.py:58-62 -/
def normalizeIdentifier (value : Text) : Text :=
  (value.filter fun c => !normDropped c).flatMap upper

/-- `is_valid_identifier`. SOURCE: orders/candidates.py:65-80 -/
def isValidIdentifier (value : Text) : Bool :=
  let trimmed := strip value
  let norm := normalizeIdentifier upper trimmed
  matchesValid trimmed && decide (5 ≤ norm.length) && decide (3 ≤ norm.countP Char.isDigit)

end

end MailVerdict.Model.Identifiers
