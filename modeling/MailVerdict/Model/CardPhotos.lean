import MailVerdict.Computation.Base64
import MailVerdict.Computation.FoldedLines
import MailVerdict.Model.Identifiers

/-!
# The photo of a contact card

The reading of a card's text that needs no general parser: the unfolding of its lines, the card
without its photo, and the three readers of the photo. `upper` and `lower` are `str.upper` and
`str.lower`; `isWord` says which characters beyond ASCII are in the class `\w`.
-/

namespace MailVerdict.Model.CardPhotos

open MailVerdict.Computation Computation.TextPatterns Model.Identifiers

abbrev Bytes := List UInt8

/-! ## Lines -/

def isContinuation (raw : Text) : Bool :=
  match raw with
  | [] => false
  | c :: _ => c == ' ' || c == '\t'

/-- The pending continuations joined onto the last line. -/
def flush (lines pending : List Text) : List Text :=
  if pending.isEmpty then lines
  else lines.dropLast ++ [lines.getLastD [] ++ pending.flatten]

def unfoldStep (state : List Text × List Text) (raw : Text) : List Text × List Text :=
  let (lines, pending) := state
  if isContinuation raw && !lines.isEmpty then (lines, pending ++ [raw.tail])
  else (flush lines pending ++ [raw], [])

/-- `_unfold_lines`. SOURCE: calendar/vcard.py:79-98 -/
def unfoldLines (data : Text) : List Text :=
  let (lines, pending) := (physicalLines data).foldl unfoldStep ([], [])
  flush lines pending

/-- The name, parameters and value of a content line; a parameter given twice stands with its
last value first. -/
structure ContentLine where
  name : Text
  params : List (Text × Text)
  value : Text
deriving DecidableEq

def ContentLine.param (content : ContentLine) (key : Text) : Option Text :=
  (content.params.find? fun p => decide (p.1 = key)).map Prod.snd

section
variable (upper lower : Text → Text)

/-- `part.partition("=")` with the key in upper case. -/
def splitParam (part : Text) : Text × Text :=
  (upper (part.takeWhile fun c => decide (c ≠ '=')),
    (part.dropWhile fun c => decide (c ≠ '=')).tail)

/-- `_split_content_line`. SOURCE: calendar/vcard.py:100-113 -/
def splitContentLine (line : Text) : Option ContentLine :=
  match line.dropWhile fun c => decide (c ≠ ':') with
  | [] => none
  | _ :: value =>
    let parts := (line.takeWhile fun c => decide (c ≠ ':')).splitOn ';'
    some {
      -- a group prefix ends at the last full stop
      name := upper ((parts.headD []).reverse.takeWhile fun c => decide (c ≠ '.')).reverse
      params := (parts.tail.map (splitParam upper)).reverse
      value := value }

/-- The line is a content line named PHOTO. -/
def isPhoto (line : Text) : Bool :=
  match splitContentLine upper line with
  | some content => decide (content.name = "PHOTO".toList)
  | none => false

def dropStep (state : List Text × Bool) (raw : Text) : List Text × Bool :=
  let (out, dropping) := state
  if isContinuation raw then (if dropping then out else out ++ [raw], dropping)
  else
    let dropping := isPhoto upper raw
    (if dropping then out else out ++ [raw], dropping)

/-- `_without_photo`. SOURCE: calendar/vcard.py:116-137 -/
def withoutPhoto (data : Text) : Text :=
  ['\r', '\n'].intercalate ((physicalLines data).foldl (dropStep upper) ([], false)).1

/-! ## The photo -/

inductive PhotoKind
  | embedded
  | url
deriving DecidableEq

structure ContactPhoto where
  kind : PhotoKind
  url : Text

/-- `_MIME_BY_TYPE_PARAM`. SOURCE: calendar/vcard.py:157-160 -/
def mimeByTypeParam : List (Text × Text) :=
  [("JPEG".toList, "image/jpeg".toList), ("JPG".toList, "image/jpeg".toList),
    ("PNG".toList, "image/png".toList), ("GIF".toList, "image/gif".toList),
    ("WEBP".toList, "image/webp".toList)]

/-- `_sniff_mime`. SOURCE: calendar/vcard.py:163-172 -/
def sniffMime (raw : Bytes) : Text :=
  if [0xff, 0xd8, 0xff].isPrefixOf raw then "image/jpeg".toList
  else if [0x89, 0x50, 0x4e, 0x47, 0x0d, 0x0a, 0x1a, 0x0a].isPrefixOf raw then "image/png".toList
  else if [0x47, 0x49, 0x46, 0x38, 0x37, 0x61].isPrefixOf raw ||
      [0x47, 0x49, 0x46, 0x38, 0x39, 0x61].isPrefixOf raw then "image/gif".toList
  else if raw.take 4 = [0x52, 0x49, 0x46, 0x46] ∧
      (raw.take 12).drop 8 = [0x57, 0x45, 0x42, 0x50] then "image/webp".toList
  else "application/octet-stream".toList

/-- The media type of decoded bytes: the one of the TYPE parameter, or else by their start. -/
def mimeOf (content : ContentLine) (raw : Bytes) : Text :=
  match mimeByTypeParam.find? fun entry =>
      decide (entry.1 = upper ((content.param "TYPE".toList).getD [])) with
  | some entry => entry.2
  | none => sniffMime raw

def saysBase64 (content : ContentLine) : Bool :=
  let encoding := lower ((content.param "ENCODING".toList).getD [])
  decide (encoding = "b".toList) || decide (encoding = "base64".toList) ||
    (content.param "BASE64".toList).isSome

/-- `base64.b64decode("".join(value.split()))`. -/
def decodeValue (value : Text) : Option Bytes :=
  Base64.decode false (value.filter fun c => !isSpace c)

/-- The loop the three readers share: the first PHOTO line answers, with nothing for a blank
value. -/
def readPhoto {α : Type} (found : ContentLine → Text → Option α) : List Text → Option α
  | [] => none
  | line :: lines =>
    match splitContentLine upper line with
    | none => readPhoto found lines
    | some content =>
      if content.name = "PHOTO".toList then
        if strip content.value = [] then none else found content (strip content.value)
      else readPhoto found lines

def extractFound (content : ContentLine) (value : Text) : Option ContactPhoto :=
  if saysBase64 lower content then
    match decodeValue value with
    | none => none
    | some raw =>
      some ⟨.embedded, "data:".toList ++ mimeOf upper content raw ++ ";base64,".toList ++
        Base64.encode raw⟩
  else if "data:".toList.isPrefixOf value then some ⟨.embedded, value⟩
  else some ⟨.url, value⟩

/-- `_extract_photo`. SOURCE: calendar/vcard.py:175-205 -/
def extractPhoto (data : Text) : Option ContactPhoto :=
  readPhoto upper (extractFound upper lower) (unfoldLines data)

def detectFound (content : ContentLine) (value : Text) : Option ContactPhoto :=
  if saysBase64 lower content || "data:".toList.isPrefixOf value then some ⟨.embedded, []⟩
  else some ⟨.url, value⟩

/-- `detect_photo`. SOURCE: calendar/vcard.py:208-231 -/
def detectPhoto (data : Text) : Option ContactPhoto :=
  readPhoto upper (detectFound lower) (unfoldLines data)

/-! ## The bytes -/

variable (isWord : Char → Bool)

/-- The class `[\w.+-]` of `_DATA_URL_RE`. -/
def mimeChar (c : Char) : Bool :=
  if c.toNat < 128 then c.isAlphanum || c == '_' || c == '.' || c == '+' || c == '-'
  else isWord c

/-- The group `([\w.+-]+/[\w.+-]+)?`: what it takes, and what is left. -/
def declaredType (rest : Text) : Text × Text :=
  match rest.dropWhile (mimeChar isWord) with
  | '/' :: subtype =>
    if rest.takeWhile (mimeChar isWord) = [] ∨ subtype.takeWhile (mimeChar isWord) = [] then
      ([], rest)
    else
      (rest.takeWhile (mimeChar isWord) ++ '/' :: subtype.takeWhile (mimeChar isWord),
        subtype.dropWhile (mimeChar isWord))
  | _ => ([], rest)

/-- `_DATA_URL_RE.match`: its two groups. SOURCE: calendar/vcard.py:293 -/
def matchDataUrl (text : Text) : Option (Text × Text) :=
  if "data:".toList.isPrefixOf text then
    let (declared, rest) := declaredType isWord (text.drop 5)
    if ";base64,".toList.isPrefixOf rest then some (declared, rest.drop 8) else none
  else none

/-- `decode_photo_data_url`. SOURCE: calendar/vcard.py:306-321 -/
def decodePhotoDataUrl (dataUrl : Text) : Option (Text × Bytes) :=
  match matchDataUrl isWord (strip dataUrl) with
  | none => none
  | some (declared, payload) =>
    match Base64.decode false payload with
    | none => none
    | some raw =>
      if mimeByTypeParam.any fun entry => decide (entry.2 = lower declared) then
        some (lower declared, raw)
      else some (sniffMime raw, raw)

def bytesFound (content : ContentLine) (value : Text) : Option (Text × Bytes) :=
  if saysBase64 lower content then
    match decodeValue value with
    | none => none
    | some raw => some (mimeOf upper content raw, raw)
  else if "data:".toList.isPrefixOf value then decodePhotoDataUrl lower isWord value
  else none

/-- `extract_photo_bytes`. SOURCE: calendar/vcard.py:324-355 -/
def extractPhotoBytes (data : Text) : Option (Text × Bytes) :=
  readPhoto upper (bytesFound upper lower isWord) (unfoldLines data)

end

end MailVerdict.Model.CardPhotos
