import MailVerdict.Computation.Substitution
import MailVerdict.Model.OrderFacts

/-!
# The input of a write prompt

Each mail of an order gets its stored documents, middle mails go until the texts fit a ceiling,
and every document that is left is numbered, mails in order and then files; its code markers are
rewritten to that number, and each rewritten marker is noted with the barcode it names.

`digit` is the value of a character that is a decimal digit, which `\d` and `int` know beyond
ASCII; `isoDate` is the day of a time. What a mail holds besides is `β`.
-/

namespace MailVerdict.Model.WriteAssembly

open Computation.TextPatterns (findAll)
open Computation.Substitution (replaceAll)
open Model.Identifiers (Text strip)
open Model.OrderFacts (Uuid Time BarcodeKey)

/-- Where a document of an order comes from. A file's row holds the day it was added.
SOURCE: database/models.py:2101-2107 -/
inductive DocumentSource
  | mail (accountId : Option Uuid) (msgKey : Option Text)
  | file (addedAt : Time)
deriving DecidableEq

/-- SOURCE: orders/documents.py:347-361 -/
structure StoredDocument where
  id : Uuid
  source : DocumentSource
  filename : Text
  contentType : Text
  pageCount : Option ℕ
  method : Text
  text : Text
deriving DecidableEq

/-- SOURCE: orders/prompts.py:46-58 -/
structure PromptDocument where
  index : ℕ
  name : Text
  contentType : Text
  pageCount : Option ℕ
  method : Text
  text : Text
  added : Text
deriving DecidableEq

/-- A mail of the order, as the call's loader hands it over. -/
structure OrderMail (β : Type) where
  accountId : Uuid
  msgKey : Text
  body : Text
  rest : β

structure PromptMail (β : Type) where
  mail : OrderMail β
  documents : List PromptDocument

/-- SOURCE: orders/documents.py:379-386 -/
structure WriteInput (β : Type) where
  mails : List (PromptMail β)
  files : List PromptDocument
  codeMap : List (Text × BarcodeKey)

/-- `WRITE_PROMPT_CEILING_CHARS`. SOURCE: orders/documents.py:54 -/
def writePromptCeilingChars : ℕ := 120000

def codePrefix : Text := ['[', 'c', 'o', 'd', 'e', ' ']

/-- `sum(f(x) for x in l)`. -/
def totalBy {α : Type} (f : α → ℕ) (l : List α) : ℕ := l.foldr (fun x n => f x + n) 0

section
variable (digit : Char → Option ℕ) (isoDate : Time → Text)

def isDigit (c : Char) : Bool := (digit c).isSome

/-- `int` of a run of digits. -/
def number (ds : Text) : ℕ := ds.foldl (fun n c => 10 * n + (digit c).getD 0) 0

/-- `_MARKER_START_RE` at the start of a text: the group's digits and the length of the match.
SOURCE: orders/documents.py:320 -/
def markerStart (text : Text) : Option (Text × ℕ) :=
  if (codePrefix ++ ['b']).isPrefixOf text then
    let ds := (text.drop 7).takeWhile (isDigit digit)
    if ds ≠ [] ∧ (text.drop (7 + ds.length)).head? = some ' ' then some (ds, 7 + ds.length + 1)
    else none
  else none

/-- The groups of `_MARKER_START_RE.finditer(text)`. -/
def markers (text : Text) : List Text := findAll (markerStart digit) 0 text

/-- `_number_markers`. SOURCE: orders/documents.py:323-325 -/
def numberMarkers (text : Text) (index : ℕ) : Text :=
  replaceAll (markerStart digit)
    (fun ds => codePrefix ++ 'd' :: Nat.toDigits 10 index ++ ':' :: 'b' :: ds ++ [' ']) 0 text

def codeKey (index ds : Text) : Text := 'd' :: index ++ ':' :: 'b' :: ds

/-- `added_at` as the prompt shows it. -/
def added : DocumentSource → Text
  | .mail _ _ => []
  | .file addedAt => isoDate addedAt

/-- The numbers given and the markers noted so far, the latest first. -/
structure Numbering where
  counter : ℕ
  codeMap : List (Text × BarcodeKey)

/-- `number`, the closure. SOURCE: orders/documents.py:431-441 -/
def numberDocument (state : Numbering) (doc : StoredDocument) : PromptDocument × Numbering :=
  let counter := state.counter + 1
  ({ index := counter
     name := doc.filename
     contentType := doc.contentType
     pageCount := doc.pageCount
     method := doc.method
     text := numberMarkers digit doc.text counter
     added := added isoDate doc.source },
    { counter := counter
      codeMap := (markers digit doc.text).foldl (fun codes ds =>
        (codeKey (Nat.toDigits 10 counter) ds, doc.id, (number digit ds : ℤ)) :: codes)
          state.codeMap })

def numberDocuments (state : Numbering) : List StoredDocument → List PromptDocument × Numbering
  | [] => ([], state)
  | doc :: docs =>
    let (shown, state) := numberDocument digit isoDate state doc
    let (rest, state) := numberDocuments state docs
    (shown :: rest, state)

variable {β : Type}

def numberMails (state : Numbering) :
    List (OrderMail β × List StoredDocument) → List (PromptMail β) × Numbering
  | [] => ([], state)
  | (mail, stored) :: kept =>
    let (documents, state) := numberDocuments digit isoDate state stored
    let (mails, state) := numberMails state kept
    (⟨mail, documents⟩ :: mails, state)

def documentsOf (documents : List StoredDocument) (mail : OrderMail β) : List StoredDocument :=
  documents.filter fun doc =>
    decide (doc.source = .mail (some mail.accountId) (some mail.msgKey)) && !(strip doc.text).isEmpty

/-- `(added_at, filename)` of one file is not after that of another. -/
def fileBefore (a b : StoredDocument) : Prop :=
  match a.source, b.source with
  | .file s, .file t => s < t ∨ (s = t ∧ ¬ b.filename < a.filename)
  | _, _ => True

instance (a b : StoredDocument) : Decidable (fileBefore a b) := by
  unfold fileBefore
  split <;> infer_instance

/-- The files, in the order they were added. -/
def fileDocuments (documents : List StoredDocument) : List StoredDocument :=
  (documents.filter fun doc =>
    match doc.source with
    | .file _ => true
    | .mail _ _ => false).insertionSort fileBefore

def docChars (docs : List StoredDocument) : ℕ := totalBy (fun doc => doc.text.length) docs

/-- `_chars`. SOURCE: orders/documents.py:389-390 -/
def chars (entry : OrderMail β × List StoredDocument) : ℕ :=
  entry.1.body.length + docChars entry.2

/-- The middle goes until what is left fits, or is two at most; the first argument is the number
of rounds there is room for. -/
def dropMiddle {α : Type} (fits : List α → Bool) : ℕ → List α → List α
  | 0, kept => kept
  | rounds + 1, kept =>
    if 2 < kept.length ∧ fits kept = false then
      dropMiddle fits rounds (kept.eraseIdx (kept.length / 2))
    else kept

/-- Whether mails with their documents, and the files, are within the ceiling. -/
def fitsCeiling (ceiling : ℕ) (documents : List StoredDocument)
    (kept : List (OrderMail β × List StoredDocument)) : Bool :=
  decide (totalBy chars kept + docChars (fileDocuments documents) ≤ ceiling)

/-- `assemble_write_input`. SOURCE: orders/documents.py:393-448 -/
def assembleWriteInput (mails : List (OrderMail β)) (documents : List StoredDocument)
    (ceiling : ℕ) : WriteInput β :=
  let entries := mails.map fun mail => (mail, documentsOf documents mail)
  let kept := dropMiddle (fitsCeiling ceiling documents) entries.length entries
  let (promptMails, state) := numberMails digit isoDate ⟨0, []⟩ kept
  let (files, state) := numberDocuments digit isoDate state (fileDocuments documents)
  ⟨promptMails, files, state.codeMap⟩

end

end MailVerdict.Model.WriteAssembly
