import MailVerdict.Computation.Regex
import MailVerdict.Model.Identifiers
import MailVerdict.Model.MessageExcerpt
import MailVerdict.Model.Webhooks

/-!
# Numbers a text labels

What `extract_labeled_identifiers` takes out of a text (the token after a known label, the number
in the query of a tracking link), and how `_number_matches` finds a stored number in a mail.

`beyond` is `str.upper` of a character beyond ASCII, `lower` is `str.lower`. `html.unescape`, the
reading of percent-decoded bytes as UTF-8 and the `ValueError` that `urlsplit` raises for some
hosts are the parameters `unescape`, `decodeUtf8` and `netlocRaises`.
-/

namespace MailVerdict.Model.LabeledNumbers

open MailVerdict.Computation Computation.TextPatterns Model.Identifiers
open Model.MessageExcerpt (scanUrl)
open Model.Webhooks (urlsplit)

inductive IdentifierKind
  | orderNumber
  | trackingNumber
  | bookingCode
  | invoiceNumber
deriving DecidableEq

/-! ## Labels -/

/-- A word of a pattern with `re.IGNORECASE`. -/
def anyCase (letters : Text) : Regex Char :=
  Regex.word (fun c d => decide (foldCase d = c)) letters

def spaces : Regex Char := .many isSpace

def wordThen (letters : Text) (ending : Regex Char) (endings : List (Regex Char)) : Regex Char :=
  .seq (anyCase letters) (Regex.oneOf ending endings)

def wordsThen (letters : Text) (ending : Regex Char) (endings : List (Regex Char)) :
    Regex Char :=
  .seq (anyCase letters) (.seq spaces (Regex.oneOf ending endings))

/-- `no\.?` -/
def numberSign : Regex Char :=
  .seq (anyCase "no".toList) (Regex.maybe (anyCase ".".toList))

/-- `_LABELED_IDENTIFIER_PATTERNS`. SOURCE: orders/candidates.py:90-105 -/
def labeledIdentifierPatterns : List (IdentifierKind × Regex Char) :=
  [(.orderNumber, Regex.oneOf
      (wordThen "bestell".toList (anyCase "nummer".toList) [anyCase "nr".toList])
      [wordsThen "order".toList (anyCase "number".toList) [numberSign, anyCase "#".toList],
        wordThen "auftrags".toList (anyCase "nummer".toList) [anyCase "nr".toList]]),
    (.trackingNumber, Regex.oneOf
      (wordThen "sendungs".toList (anyCase "nummer".toList) [anyCase "verfolgung".toList])
      [wordsThen "tracking".toList (anyCase "number".toList)
          [anyCase "nummer".toList, anyCase "id".toList, anyCase "code".toList],
        anyCase "paketnummer".toList]),
    (.bookingCode, Regex.oneOf
      (wordThen "buchungs".toList (anyCase "nummer".toList)
        [anyCase "code".toList, anyCase "referenz".toList])
      [wordsThen "booking".toList (anyCase "number".toList)
          [anyCase "reference".toList, anyCase "code".toList],
        anyCase "reservierungsnummer".toList,
        wordsThen "confirmation".toList (anyCase "number".toList) []]),
    (.invoiceNumber, Regex.oneOf
      (wordThen "rechnungs".toList (anyCase "nummer".toList) [anyCase "nr".toList])
      [wordsThen "invoice".toList (anyCase "number".toList) [numberSign]])]

/-- A label at the start of the text: what stands after it, and its length. -/
def scanLabel (pattern : Regex Char) (text : Text) : Option (Text × ℕ) :=
  (pattern.matchRest text).map fun rest => (rest, text.length - rest.length)

def labelToValueGap : ℕ := 40

/-- The characters of `window.lstrip(" :#-\t")`. -/
def separator (c : Char) : Bool := c == ' ' || c == ':' || c == '#' || c == '-' || c == '\t'

/-- The characters `_IDENTIFIER_TOKEN_RE` takes after the first. -/
def tokenChar (c : Char) : Bool :=
  isAlnum c || c == '.' || c == '/' || c == '_' || c == '#' || c == '-'

/-- `_IDENTIFIER_TOKEN_RE.match`. SOURCE: orders/candidates.py:106 -/
def identifierToken : Text → Option Text
  | [] => none
  | c :: cs =>
    let more := (cs.takeWhile tokenChar).take 39
    if isAlnum c && decide (3 ≤ more.length) then some (c :: more) else none

/-- The characters of `rstrip(".,;:")`. -/
def trailing (c : Char) : Bool := c == '.' || c == ',' || c == ';' || c == ':'

/-- The token after a label, of the window it is looked for in. -/
def valueAfter (rest : Text) : Option Text :=
  (identifierToken ((rest.take labelToValueGap).dropWhile separator)).map
    (List.rdropWhile trailing)

/-! ## Links -/

section
variable (decodeUtf8 : List UInt8 → Text)

def hexValue (c : Char) : Option ℕ :=
  if c.isDigit then some (c.toNat - 48)
  else if 'a' ≤ c ∧ c ≤ 'f' then some (c.toNat - 87)
  else if 'A' ≤ c ∧ c ≤ 'F' then some (c.toNat - 55)
  else none

def unquoteToBytes : Text → List UInt8
  | [] => []
  | [c] => [UInt8.ofNat c.toNat]
  | [c, d] => [UInt8.ofNat c.toNat, UInt8.ofNat d.toNat]
  | c :: d :: e :: rest =>
    match decide (c = '%'), hexValue d, hexValue e with
    | true, some high, some low => UInt8.ofNat (16 * high + low) :: unquoteToBytes rest
    | _, _, _ => UInt8.ofNat c.toNat :: unquoteToBytes (d :: e :: rest)

/-- The runs of ASCII characters decoded, the others as they are; `run` is read of a run. -/
def unquoteFrom (run : Text) : Text → Text
  | [] => if run.isEmpty then [] else decodeUtf8 (unquoteToBytes run)
  | c :: rest =>
    if c.toNat < 128 then unquoteFrom (run ++ [c]) rest
    else (if run.isEmpty then [] else decodeUtf8 (unquoteToBytes run)) ++
      c :: unquoteFrom [] rest

/-- `urllib.parse.unquote`. -/
def unquote (text : Text) : Text :=
  if text.any fun c => decide (c = '%') then unquoteFrom decodeUtf8 [] text else text

/-- `parse_qsl`: the named values of a query, blank ones left out. -/
def parseQsl (query : Text) : List (Text × Text) :=
  (query.splitOn '&').filterMap fun pair =>
    let plain := fun part : Text => part.map fun c => if c = '+' then ' ' else c
    match pair.dropWhile fun c => decide (c ≠ '=') with
    | _ :: c :: value =>
      some (unquote decodeUtf8 (plain (pair.takeWhile fun c => decide (c ≠ '='))),
        unquote decodeUtf8 (plain (c :: value)))
    | _ => none

def exact (letters : Text) : Regex Char := Regex.word (fun c d => decide (d = c)) letters

/-- `[_-]?` -/
def joiner : Regex Char := Regex.maybe (.one fun c => c == '_' || c == '-')

/-- `_SHIPMENT_PARAM_RE`. SOURCE: orders/candidates.py:113-116 -/
def shipmentParam : Regex Char :=
  Regex.oneOf (exact "piececode".toList)
    [exact "idc".toList,
      .seq (exact "tracking".toList) (.seq joiner (Regex.maybe (Regex.oneOf
        (exact "number".toList)
        [exact "id".toList, exact "code".toList, exact "no".toList]))),
      exact "sendungsnummer".toList,
      exact "sendungsnr".toList,
      .seq (exact "parcel".toList) (.seq joiner (Regex.oneOf (exact "number".toList)
        [exact "id".toList])),
      .seq (exact "shipment".toList) (.seq joiner (Regex.oneOf (exact "number".toList)
        [exact "id".toList]))]

variable (beyond : Char → Text) (lower unescape : Text → Text) (netlocRaises : Text → Bool)

def upperChar (c : Char) : Text := if c.toNat < 128 then [c.toUpper] else beyond c

def upperText (text : Text) : Text := text.flatMap (upperChar beyond)

def linkParams (url : Text) : List (Text × Text) :=
  let parts := urlsplit (String.ofList (unescape url))
  if netlocRaises parts.netloc then [] else parseQsl decodeUtf8 parts.query

/-- `shipment_number_in_url`. SOURCE: orders/candidates.py:120-134 -/
def shipmentNumberInUrl (url : Text) : Option Text :=
  ((linkParams decodeUtf8 unescape netlocRaises url).find? fun param =>
    shipmentParam.fullmatch (lower param.1) &&
      isValidIdentifier (upperChar beyond) param.2).map fun param => strip param.2

/-! ## Extraction -/

/-- The labelled numbers of one kind, as the loop over `label_re.finditer` sees them. -/
def labeledValues (text : Text) (entry : IdentifierKind × Regex Char) :
    List (IdentifierKind × Text) :=
  (findAll (scanLabel entry.2) 0 text).filterMap fun rest =>
    ((valueAfter rest).filter (isValidIdentifier (upperChar beyond))).map fun value =>
      (entry.1, value)

def linkValues (text : Text) : List (IdentifierKind × Text) :=
  (findAll scanUrl 0 text).filterMap fun url =>
    (shipmentNumberInUrl decodeUtf8 beyond lower unescape netlocRaises url).map fun value =>
      (.trackingNumber, value)

/-- `if norm in seen: continue; seen.add(norm); found.append(...)` -/
def addFound (state : List (IdentifierKind × Text) × List Text) (pair : IdentifierKind × Text) :
    List (IdentifierKind × Text) × List Text :=
  let norm := normalizeIdentifier (upperChar beyond) pair.2
  if state.2.any fun seen => decide (seen = norm) then state
  else (state.1 ++ [pair], state.2 ++ [norm])

/-- `extract_labeled_identifiers`. SOURCE: orders/candidates.py:137-180 -/
def extractLabeledIdentifiers (text : Text) : List (IdentifierKind × Text) :=
  let labeled := (labeledIdentifierPatterns.flatMap (labeledValues beyond text)).foldl
    (addFound beyond) ([], [])
  ((linkValues decodeUtf8 beyond lower unescape netlocRaises text).foldl
    (addFound beyond) labeled).1

end

/-! ## Matching -/

/-- The pattern stands in the text with no letter or digit on either side; `before` is the
character before the text. -/
def wholeWord (pattern : Text) (before : Option Char) (text : Text) : Bool :=
  (!before.any isAlnum && pattern.isPrefixOf text &&
    !(text.drop pattern.length).head?.any isAlnum) ||
  match text with
  | [] => false
  | c :: rest => wholeWord pattern (some c) rest

/-- `_number_matches`. SOURCE: orders/candidates.py:183-191 -/
def numberMatches (beyond : Char → Text) (value valueNorm haystackUpper haystackNorm : Text) :
    Bool :=
  wholeWord (upperText beyond value) none haystackUpper ||
    (decide (8 ≤ valueNorm.length) && decide (valueNorm <:+: haystackNorm))

end MailVerdict.Model.LabeledNumbers
