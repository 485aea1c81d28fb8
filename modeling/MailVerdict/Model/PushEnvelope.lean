import MailVerdict.Computation.Base64
import MailVerdict.Computation.JsonText
import MailVerdict.Model.Identifiers

/-!
# The envelope of a native push

A payload is written as JSON in UTF-8, sealed with the device's content key and with its
installation id as associated data, and put into a base64 blob behind a version and a nonce. Ids
of resolved alerts are dropped from the end until the blob fits.

AES-GCM is a parameter; `nonces` are what `os.urandom` gives, one for each blob that is sealed.
-/

namespace MailVerdict.Model.PushEnvelope

open MailVerdict.Computation
open Model.Identifiers (Text)

abbrev Bytes := List UInt8

abbrev Uuid := Fin (2 ^ 128)

/-- `AESGCM(key).encrypt` and `AESGCM(key).decrypt`: key, nonce, data, associated data. -/
structure Aead where
  encrypt : Bytes → Bytes → Bytes → Bytes → Bytes
  decrypt : Bytes → Bytes → Bytes → Bytes → Option Bytes

structure Nonce where
  bytes : Bytes
  size : bytes.length = 12

def envelopeVersion : UInt8 := 1

def contentKeyBytes : ℕ := 32

def nonceBytes : ℕ := 12

/-- `MAX_BLOB_CHARS` and what is clipped. SOURCE: push/envelope.py:37-41 -/
def maxBlobChars : ℕ := 3000

def maxTitleChars : ℕ := 160

def maxBodyChars : ℕ := 120

def maxResolvedIds : ℕ := 20

/-- The last `count` hex digits of a number. -/
def hexDigits : ℕ → ℕ → Text
  | 0, _ => []
  | count + 1, n => hexDigits count (n / 16) ++ [Nat.digitChar (n % 16)]

def uuidText (id : Uuid) : Text :=
  let digits := hexDigits 32 id.val
  digits.take 8 ++ '-' :: (digits.drop 8).take 4 ++ '-' :: (digits.drop 12).take 4 ++
    '-' :: (digits.drop 16).take 4 ++ '-' :: digits.drop 20

/-- `str.encode("ascii")` of a text of ASCII characters. -/
def ascii (text : Text) : Bytes := text.map fun c => UInt8.ofNat c.toNat

/-- `_aad`. SOURCE: push/envelope.py:48-49 -/
def aad (installationId : Uuid) : Bytes :=
  ascii (['m', 'v', '-', 'p', 'u', 's', 'h', '-', 'v', '1', ':'] ++ uuidText installationId)

section
variable (aead : Aead)

/-- `seal_bytes`; a key of another length is refused. SOURCE: push/envelope.py:52-71 -/
def sealBytes (plaintext key : Bytes) (installationId : Uuid) (nonce : Nonce) : Option Text :=
  if key.length = contentKeyBytes then
    some (Base64.encode (envelopeVersion ::
      (nonce.bytes ++ aead.encrypt key nonce.bytes plaintext (aad installationId))))
  else none

/-- `open_bytes`. SOURCE: push/envelope.py:74-92 -/
def openBytes (blob : Text) (key : Bytes) (installationId : Uuid) : Option Bytes :=
  (Base64.decode true blob).bind fun raw =>
    if raw.length < 1 + nonceBytes + 16 ∨ raw.head? ≠ some envelopeVersion then none
    else aead.decrypt key ((raw.drop 1).take nonceBytes) (raw.drop (1 + nonceBytes))
      (aad installationId)

end

/-- What an alert's row holds of what is announced. SOURCE: database/models.py:1767-1776 -/
structure Alert where
  id : Uuid
  kind : Text
  title : Option Text
  body : Option Text
  url : Option Text
  accountId : Option Uuid
  messageId : Option Uuid
  folderId : Option Uuid

structure Payload where
  alertId : Uuid
  kind : Text
  title : Text
  body : Option Text
  accountId : Option Uuid
  messageId : Option Uuid
  folderId : Option Uuid
  url : Option Text
  badge : ℤ
  resolved : List Uuid

/-- `_clip`. SOURCE: push/envelope.py:99-102 -/
def clip (value : Option Text) (limit : ℕ) : Option Text :=
  value.map fun text => if text.length ≤ limit then text else text.take (limit - 1) ++ ['…']

/-- `alert_payload`. SOURCE: push/envelope.py:105-135 -/
def alertPayload (alert : Alert) (badge : ℤ) (resolved : List Uuid) : Payload where
  alertId := alert.id
  kind := alert.kind
  title := (clip alert.title maxTitleChars).getD []
  body := clip alert.body maxBodyChars
  accountId := alert.accountId
  messageId := alert.messageId
  folderId := alert.folderId
  url := alert.url
  badge := badge
  resolved := resolved.take maxResolvedIds

def textJson (text : Text) : Json ℤ := .str (String.ofList text)

def idJson (id : Uuid) : Json ℤ := textJson (uuidText id)

def orNull {α : Type} (f : α → Json ℤ) : Option α → Json ℤ
  | some x => f x
  | none => .null

/-- The payload as the object it is written as. -/
def Payload.toJson (p : Payload) : Json ℤ :=
  .obj [("v", .num 1), ("alert_id", idJson p.alertId), ("kind", textJson p.kind),
    ("title", textJson p.title), ("body", orNull textJson p.body),
    ("account_id", orNull idJson p.accountId), ("message_id", orNull idJson p.messageId),
    ("folder_id", orNull idJson p.folderId), ("url", orNull textJson p.url),
    ("badge", .num p.badge), ("resolved", .arr (p.resolved.map idJson))]

/-- `str.encode("utf-8")`. -/
def utf8 (text : Text) : Bytes := text.flatMap String.utf8EncodeChar

def decodeUtf8 (bytes : Bytes) : Option Text := bytes.toByteArray.utf8Decode?.map Array.toList

/-- `_encode`. SOURCE: push/envelope.py:95-96 -/
def encodePayload (p : Payload) : Bytes := utf8 (JsonText.dumpsValue p.toJson)

section
variable (aead : Aead)

/-- The payload with the first `count` of its resolved ids. -/
def Payload.withFirst (p : Payload) (count : ℕ) : Payload :=
  { p with resolved := p.resolved.take count }

/-- The loop of `seal_payload`, with the first `count` ids left and `round` blobs sealed. -/
def sealFrom (p : Payload) (key : Bytes) (installationId : Uuid) (nonces : ℕ → Nonce) :
    ℕ → ℕ → Option Text
  | 0, round => sealBytes aead (encodePayload (p.withFirst 0)) key installationId (nonces round)
  | count + 1, round =>
    match sealBytes aead (encodePayload (p.withFirst (count + 1))) key installationId
      (nonces round) with
    | none => none
    | some blob =>
      if blob.length ≤ maxBlobChars then some blob
      else sealFrom p key installationId nonces count (round + 1)

/-- `seal_payload`. SOURCE: push/envelope.py:138-152 -/
def sealPayload (p : Payload) (key : Bytes) (installationId : Uuid) (nonces : ℕ → Nonce) :
    Option Text :=
  sealFrom aead p key installationId nonces p.resolved.length 0

/-- `open_payload`: the object, or that there is none. SOURCE: push/envelope.py:155-160 -/
def openPayload (blob : Text) (key : Bytes) (installationId : Uuid) : Option (Json ℤ) :=
  ((openBytes aead blob key installationId).bind decodeUtf8).bind fun text =>
    match JsonText.loads text with
    | some (.obj fields) => some (.obj fields)
    | _ => none

end

end MailVerdict.Model.PushEnvelope
