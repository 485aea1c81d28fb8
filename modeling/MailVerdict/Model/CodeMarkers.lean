import Mathlib.Data.List.Sort

/-!
# Code markers in a page's text

Every barcode read on a page is shown in the page's text as a marker in reading order: before
the line of the first glyph that follows it, rows first and left to right within a row, or at
the end of the text.

A coordinate is a value of a linear order `F`, and `row` is `round(top / ROW_POINTS)`, the row
a coordinate is in.
-/

namespace MailVerdict.Model.CodeMarkers

/-- A decoded code of a document. Its printable text and the name of its format have no line
feed. -/
structure Barcode where
  index : ℕ
  format : List Char
  payload : List UInt8
  text : Option (List Char)
  format_line : '\n' ∉ format
  text_line : ∀ t ∈ text, '\n' ∉ t

/-- `_MARKER_TEXT_CHARS`. SOURCE: orders/extract/barcodes.py:34 -/
def markerTextChars : ℕ := 60

/-- What a marker shows of a code: its text, or how many bytes it has. -/
def shownPayload (payload : List UInt8) (text : Option (List Char)) : List Char :=
  let bytes := Nat.toDigits 10 payload.length ++ [' ', 'b', 'y', 't', 'e', 's']
  match text with
  | some t =>
    if t.length ≤ markerTextChars && !t.contains '\x22' && !t.contains ']' then
      '\x22' :: t ++ ['\x22']
    else bytes
  | none => bytes

/-- `marker`. SOURCE: orders/extract/barcodes.py:96-100 -/
def marker (index : ℕ) (format : List Char) (payload : List UInt8) (text : Option (List Char)) :
    List Char :=
  ['[', 'c', 'o', 'd', 'e', ' ', 'b'] ++ Nat.toDigits 10 index ++ ' ' :: format ++
    ' ' :: shownPayload payload text ++ [']']

section
variable {F : Type}

structure Anchor (F : Type) where
  index : ℕ
  top : F
  left : F

structure Placed (F : Type) where
  marker : List Char
  top : F
  left : F

/-- A code of the document where it was found. -/
structure PlacedCode (F : Type) where
  code : Barcode
  top : F
  left : F

/-- What the readers hand over for a code. SOURCE: orders/extract/pdf.py:110-120 -/
def PlacedCode.placed (c : PlacedCode F) : Placed F :=
  ⟨marker c.code.index c.code.format c.code.payload c.code.text, c.top, c.left⟩

variable [LinearOrder F] (row : F → ℤ)

/-- `(round(top / ROW_POINTS), left)`. -/
def readingKey (top left : F) : ℤ × F := (row top, left)

/-- One key comes before another in reading order. -/
def keyBefore (k k' : ℤ × F) : Bool :=
  decide (k.1 < k'.1) || (decide (k.1 = k'.1) && decide (k.2 < k'.2))

def Anchor.key (a : Anchor F) : ℤ × F := readingKey row a.top a.left

def Placed.key (p : Placed F) : ℤ × F := readingKey row p.top p.left

def later (anchors : List (Anchor F)) (p : Placed F) : List (Anchor F) :=
  anchors.filter fun a => keyBefore (p.key row) (a.key row)

/-- `min(later, key=...)`: the first of those with the least key. -/
def firstOf : List (Anchor F) → Option (Anchor F)
  | [] => none
  | a :: as => some (as.foldl (fun m b => if keyBefore (b.key row) (m.key row) then b else m) a)

/-- `text.rfind("\n", 0, index) + 1`. -/
def lineStart (text : List Char) (index : ℕ) : ℕ :=
  let head := text.take index
  head.length - (head.reverse.takeWhile fun c => decide (c ≠ '\n')).length

/-- Where a code's marker goes in the text as it was. -/
def insertAt (text : List Char) (anchors : List (Anchor F)) (p : Placed F) : ℕ :=
  match firstOf row (later row anchors p) with
  | some a => lineStart text a.index
  | none => text.length

/-- A position, the code's place in the list, its marker. -/
structure Insert where
  position : ℕ
  order : ℕ
  marker : List Char

/-- `(i[0], i[1])` in tuple order. -/
def Insert.notAfter (i j : Insert) : Prop :=
  i.position < j.position ∨ (i.position = j.position ∧ i.order ≤ j.order)

instance (i j : Insert) : Decidable (i.notAfter j) := by
  unfold Insert.notAfter
  infer_instance

/-- Put one marker into the text: on a line of its own before a position, or at the end. -/
def insertOne (text : List Char) (position : ℕ) (markerText : List Char) : List Char :=
  if position < text.length then
    text.take position ++ markerText ++ '\n' :: text.drop position
  else
    text ++ (if text ≠ [] ∧ text.getLast? ≠ some '\n' then ['\n'] else []) ++ markerText

def inserts (text : List Char) (anchors : List (Anchor F)) (placed : List (Placed F)) :
    List Insert :=
  placed.zipIdx.map fun p => ⟨insertAt row text anchors p.1, p.2, p.1.marker⟩

/-- `insert_markers`: the positions are those of the text as it was, used from the back to the
front. SOURCE: orders/extract/barcodes.py:146-181 -/
def insertMarkers (text : List Char) (anchors : List (Anchor F)) (placed : List (Placed F)) :
    List Char :=
  ((inserts row text anchors placed).insertionSort fun i j => j.notAfter i).foldl
    (fun text i => insertOne text i.position i.marker) text

end

end MailVerdict.Model.CodeMarkers
