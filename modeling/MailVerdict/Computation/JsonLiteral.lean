import Mathlib.Data.Nat.Notation

/-!
# String literals of JSON

A string as `json.dumps` writes it with `ensure_ascii=False`, and the reader of a literal at the
start of a text, which gives the code points and what follows. An encoding of single characters
that the reader takes one by one is read back whole, whatever follows.
-/

namespace MailVerdict.Computation.JsonLiteral

/-- A character inside a literal: the two delimiters and the control characters are escaped. -/
def escapeChar (c : Char) : List Char :=
  if c = '\x22' then ['\\', '\x22']
  else if c = '\\' then ['\\', '\\']
  else if c = '\n' then ['\\', 'n']
  else if c = '\r' then ['\\', 'r']
  else if c = '\t' then ['\\', 't']
  else if c = '\x0c' then ['\\', 'f']
  else if c = '\x08' then ['\\', 'b']
  else if c.toNat < 32 then
    ['\\', 'u', '0', '0', Nat.digitChar (c.toNat / 16), Nat.digitChar (c.toNat % 16)]
  else [c]

/-- `json.dumps` of a string. -/
def dumps (value : List Char) : List Char :=
  '\x22' :: value.flatMap escapeChar ++ ['\x22']

def hexDigit (c : Char) : Option ℕ :=
  if '0' ≤ c ∧ c ≤ '9' then some (c.toNat - 48)
  else if 'a' ≤ c ∧ c ≤ 'f' then some (c.toNat - 87)
  else if 'A' ≤ c ∧ c ≤ 'F' then some (c.toNat - 55)
  else none

def hexFour : List Char → Option ℕ
  | a :: b :: c :: d :: _ =>
    match hexDigit a, hexDigit b, hexDigit c, hexDigit d with
    | some a, some b, some c, some d => some (((a * 16 + b) * 16 + c) * 16 + d)
    | _, _, _, _ => none
  | _ => none

/-- The low half of a surrogate pair, escaped. -/
def lowHalf : List Char → Option ℕ
  | '\\' :: 'u' :: rest => (hexFour rest).filter fun n => decide (0xDC00 ≤ n ∧ n ≤ 0xDFFF)
  | _ => none

/-- What an escape stands for, after its backslash, with its length: two escaped halves of a pair
are one code point. -/
def readEscape : List Char → Option (ℕ × ℕ)
  | 'u' :: rest =>
    match hexFour rest with
    | some high =>
      if 0xD800 ≤ high ∧ high ≤ 0xDBFF then
        match lowHalf (rest.drop 4) with
        | some low => some (0x10000 + (high - 0xD800) * 0x400 + (low - 0xDC00), 11)
        | none => some (high, 5)
      else some (high, 5)
    | none => none
  | '\x22' :: _ => some (34, 1)
  | '\\' :: _ => some (92, 1)
  | '/' :: _ => some (47, 1)
  | 'b' :: _ => some (8, 1)
  | 'f' :: _ => some (12, 1)
  | 'n' :: _ => some (10, 1)
  | 'r' :: _ => some (13, 1)
  | 't' :: _ => some (9, 1)
  | _ => none

/-- The code points up to the closing quote, and what follows it; a control character is refused. -/
def readString (text : List Char) : Option (List ℕ × List Char) :=
  match text with
  | [] => none
  | c :: rest =>
    if c = '\x22' then some ([], rest)
    else if c = '\\' then
      match readEscape rest with
      | some (n, k) => (readString (rest.drop k)).map fun r => (n :: r.1, r.2)
      | none => none
    else if c.toNat < 32 then none
    else (readString rest).map fun r => (c.toNat :: r.1, r.2)
termination_by text.length
decreasing_by
  · rw [List.length_cons, List.length_drop]
    omega
  · rw [List.length_cons]
    omega

def readLiteral : List Char → Option (List ℕ × List Char)
  | '\x22' :: rest => readString rest
  | _ => none

/-- The reader takes the encoded character first, whatever follows. -/
def ReadsAs (code : List Char) (c : Char) : Prop :=
  ∀ rest, readString (code ++ rest) = (readString rest).map fun r => (c.toNat :: r.1, r.2)

theorem readString_quote (rest : List Char) : readString ('\x22' :: rest) = some ([], rest) := by
  rw [readString, if_pos rfl]

theorem readsAs_escape {code : List Char} {c : Char}
    (h : ∀ rest, readEscape (code ++ rest) = some (c.toNat, code.length)) :
    ReadsAs ('\\' :: code) c := by
  intro rest
  rw [List.cons_append, readString, if_neg (by decide), if_pos rfl, h rest]
  simp only [List.drop_left]

theorem readsAs_self {c : Char} (hquote : c ≠ '\x22') (hslash : c ≠ '\\')
    (hcontrol : ¬ c.toNat < 32) : ReadsAs [c] c := by
  intro rest
  rw [List.singleton_append, readString, if_neg hquote, if_neg hslash, if_neg hcontrol]

theorem readEscape_control (rest : List Char) :
    ∀ n < 32, readEscape (['u', '0', '0', Nat.digitChar (n / 16), Nat.digitChar (n % 16)] ++ rest) =
      some (n, 5) := by
  have hdigits : ∀ n < 32,
      hexFour ['0', '0', Nat.digitChar (n / 16), Nat.digitChar (n % 16)] = some n := by decide
  intro n hn
  have hhex : hexFour ('0' :: '0' :: Nat.digitChar (n / 16) :: Nat.digitChar (n % 16) :: rest) =
      some n := hdigits n hn
  have hsmall : ¬ (0xD800 ≤ n ∧ n ≤ 0xDBFF) := by omega
  simp only [List.cons_append, List.nil_append, readEscape, hhex, if_neg hsmall]

/-- **Every character is read back** from its escape. -/
theorem readsAs_escapeChar (c : Char) : ReadsAs (escapeChar c) c := by
  unfold escapeChar
  iterate 7
    split
    · rename_i h
      exact readsAs_escape fun rest => by rw [h]; rfl
  split
  · rename_i h
    exact readsAs_escape fun rest => readEscape_control rest c.toNat h
  · rename_i hquote hslash _ _ _ _ _ hcontrol
    exact readsAs_self hquote hslash hcontrol

/-- **Round trip**: a literal whose characters are read one by one is read back, whatever follows. -/
theorem readLiteral_encoded {encode : Char → List Char} (h : ∀ c, ReadsAs (encode c) c)
    (value rest : List Char) :
    readLiteral ('\x22' :: (value.flatMap encode ++ '\x22' :: rest)) =
      some (value.map Char.toNat, rest) := by
  have hread : readString (value.flatMap encode ++ '\x22' :: rest) =
      some (value.map Char.toNat, rest) := by
    induction value with
    | nil => exact readString_quote rest
    | cons c value ih =>
      rw [List.flatMap_cons, List.append_assoc, h c, ih]
      rfl
  exact hread

end MailVerdict.Computation.JsonLiteral
