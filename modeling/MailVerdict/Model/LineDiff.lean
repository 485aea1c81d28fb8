import MailVerdict.Computation.EditScript

/-!
# The line diff of two texts

The changed lines of two versions of a text with three unchanged lines around each change and
a count in place of every longer unchanged run; a changed line beside its replacement marks
the characters that differ.

The opcodes of `difflib.SequenceMatcher` are a parameter, with what its documentation promises
of them as a field; its grouping of them and its ratio are the library's `groupedOpcodes` and
`ratioBelow` here.
-/

namespace MailVerdict.Model.LineDiff

open MailVerdict.Computation
open Computation.EditScript

abbrev Line := List Char

/-- The characters `str.splitlines` ends a line at. -/
def isBoundary (c : Char) : Bool :=
  c == '\n' || c == '\r' || c == '\x0b' || c == '\x0c' || c == '\x1c' || c == '\x1d' ||
    c == '\x1e' || c == '\u0085' || c == '\u2028' || c == '\u2029'

/-- The lines of a text, the characters of the current one gathered in `line`. -/
def splitlinesFrom (line : Line) : List Char → List Line
  | [] => if line = [] then [] else [line]
  | '\r' :: '\n' :: cs => line :: splitlinesFrom [] cs
  | c :: cs => if isBoundary c then line :: splitlinesFrom [] cs else splitlinesFrom (line ++ [c]) cs

def splitlines (text : List Char) : List Line := splitlinesFrom [] text

/-- `SequenceMatcher(None, a, b, autojunk=False).get_opcodes()` for any two lists. -/
structure SequenceMatcher (α : Type) where
  opcodes : List α → List α → List Opcode
  valid : ∀ a b, Valid a b (opcodes a b)

/-- `CONTEXT_LINES`. SOURCE: core/line_diff.py:15 -/
def contextLines : ℕ := 3

/-- Whether `ratio()` is below `_INLINE_MIN_RATIO`, a half: twice the characters in equal
stretches over those of both texts; the ratio of two empty texts is one.
SOURCE: core/line_diff.py:18 -/
def ratioBelow (old new : Line) (codes : List Opcode) : Bool :=
  let matched := ((codes.filter fun c => decide (c.tag = .equal)).map fun c => c.i2 - c.i1).foldl
    (· + ·) 0
  decide (4 * matched < old.length + new.length)

/-- `DiffOp`. SOURCE: core/line_diff.py:20 -/
inductive DiffOp
  | context
  | added
  | removed
  | gap
deriving DecidableEq

structure DiffSegment where
  text : List Char
  changed : Bool

structure DiffRow where
  op : DiffOp
  segments : List DiffSegment
  skipped : ℕ

/-- `_row`. SOURCE: core/line_diff.py:34-35 -/
def row (op : DiffOp) (text : Line) : DiffRow := ⟨op, [⟨text, false⟩], 0⟩

/-- `_gap`. SOURCE: core/line_diff.py:38-39 -/
def gap (count : ℕ) : DiffRow := ⟨.gap, [], count⟩

/-- A stretch of a line joins the segment before it where both are changed or both are not. -/
def addSegment (changed : Bool) (text : List Char) (segments : List DiffSegment) :
    List DiffSegment :=
  if text = [] then segments
  else
    match segments.getLast? with
    | some last =>
      if last.changed = changed then segments.dropLast ++ [⟨last.text ++ text, last.changed⟩]
      else segments ++ [⟨text, changed⟩]
    | none => [⟨text, changed⟩]

section
variable (lineMatcher : SequenceMatcher Line) (charMatcher : SequenceMatcher Char)

def inlineSegments (old new : Line) (codes : List Opcode) :
    List DiffSegment × List DiffSegment :=
  codes.foldl (fun acc c =>
    (addSegment (decide (c.tag ≠ .equal)) (slice old c.i1 c.i2) acc.1,
      addSegment (decide (c.tag ≠ .equal)) (slice new c.j1 c.j2) acc.2)) ([], [])

/-- `_inline`. SOURCE: core/line_diff.py:42-59 -/
def inlinePair (old new : Line) : Option (List DiffSegment × List DiffSegment) :=
  let codes := charMatcher.opcodes old new
  if ratioBelow old new codes then none
  else some (inlineSegments old new codes)

def markedRows (op : DiffOp) : List Line → List (Option (List DiffSegment)) → List DiffRow
  | [], _ => []
  | line :: lines, some segments :: pairs =>
    { row op line with segments := segments } :: markedRows op lines pairs
  | line :: lines, none :: pairs => row op line :: markedRows op lines pairs
  | line :: lines, [] => row op line :: markedRows op lines []

/-- `_replace`: the k-th old line is paired with the k-th new one.
SOURCE: core/line_diff.py:62-69 -/
def replaceRows (oldLines newLines : List Line) : List DiffRow :=
  let pairs := List.zipWith (inlinePair charMatcher) oldLines newLines
  markedRows .removed oldLines (pairs.map fun pair => pair.map Prod.fst) ++
    markedRows .added newLines (pairs.map fun pair => pair.map Prod.snd)

/-- The rows of one opcode. SOURCE: core/line_diff.py:86-93 -/
def opcodeRows (old new : List Line) (c : Opcode) : List DiffRow :=
  match c.tag with
  | .equal => (slice old c.i1 c.i2).map (row .context)
  | .delete => (slice old c.i1 c.i2).map (row .removed)
  | .insert => (slice new c.j1 c.j2).map (row .added)
  | .replace => replaceRows charMatcher (slice old c.i1 c.i2) (slice new c.j1 c.j2)

/-- The loop over the groups, the old lines up to `shownTo` being done.
SOURCE: core/line_diff.py:83-97 -/
def groupRows (old new : List Line) : List (List Opcode) → ℕ → List DiffRow
  | [], shownTo => if shownTo < old.length then [gap (old.length - shownTo)] else []
  | group :: groups, shownTo =>
    let first := (group.head?.map Opcode.i1).getD shownTo
    let last := (group.getLast?.map Opcode.i2).getD shownTo
    (if first > shownTo then [gap (first - shownTo)] else []) ++
      group.flatMap (opcodeRows charMatcher old new) ++ groupRows old new groups last

/-- `line_diff`. SOURCE: core/line_diff.py:72-97 -/
def lineDiff (before after : Option (List Char)) : List DiffRow :=
  let old := splitlines (before.getD [])
  let new := splitlines (after.getD [])
  if old = new then []
  else
    groupRows charMatcher old new (groupedOpcodes contextLines (lineMatcher.opcodes old new)) 0

end

end MailVerdict.Model.LineDiff
