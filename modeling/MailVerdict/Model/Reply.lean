import Mathlib.Data.List.DropRight

/-!
# Replies

`lib/reply.ts` and `lib/format.ts`: whom a reply is addressed to, and what it quotes. `lower` is
`toLowerCase`, `formatFullDate` the date as the user's locale writes it. Below, mailboxes as they
are written in a header.
-/

namespace MailVerdict.Model.Reply

abbrev Text := List Char

/-! ### The code -/

/-- What `trim` takes off the ends, and `\s`. -/
def blank (c : Char) : Bool :=
  decide (9 ≤ c.toNat ∧ c.toNat ≤ 13) || decide (0x2000 ≤ c.toNat ∧ c.toNat ≤ 0x200A) ||
    decide (c.toNat ∈ [0x20, 0xA0, 0x1680, 0x2028, 0x2029, 0x202F, 0x205F, 0x3000, 0xFEFF])

def trim (text : Text) : Text := (text.dropWhile blank).rdropWhile blank

/-- The group of the first match of `/<([^>]+)>/`. -/
def angleMatch : Text → Option Text
  | [] => none
  | c :: rest =>
    let inner := rest.takeWhile (· ≠ '>')
    if c = '<' ∧ inner ≠ [] ∧ '>' ∈ rest then some inner else angleMatch rest

def extractEmail : Option Text → Text
  | none => []
  | some text => (angleMatch text).getD text

/-- `/^"?([^"<]+)"?\s*<.*>$/`; a dot matches no line break. -/
def extractSenderName : Option Text → Text
  | none | some [] => "Unknown".toList
  | some text =>
    let body := if text.head? = some '\x22' then text.tail else text
    let name := body.takeWhile fun c => c ≠ '\x22' && c ≠ '<'
    let rest := body.drop name.length
    let mailbox := (if rest.head? = some '\x22' then rest.tail else rest).dropWhile blank
    if name ≠ [] ∧ 2 ≤ mailbox.length ∧ mailbox.head? = some '<' ∧ mailbox.getLast? = some '>' ∧
        mailbox.all (· ∉ ['\n', '\r', '\u2028', '\u2029']) then trim name
    else text.takeWhile (· ≠ '@')

/-- The loop of `splitAddressHeader`, with its entry, `inQuotes` and `inAngle`. -/
def splitFrom : Bool → Bool → Text → Text → List Text
  | _, _, current, [] => [current]
  | inQuotes, inAngle, current, char :: rest =>
    if char = '\x22' then splitFrom (!inQuotes) inAngle (current ++ [char]) rest
    else if char = '<' ∧ inQuotes = false then splitFrom inQuotes true (current ++ [char]) rest
    else if char = '>' ∧ inQuotes = false then splitFrom inQuotes false (current ++ [char]) rest
    else if (char = ',' ∨ char = ';') ∧ inQuotes = false ∧ inAngle = false then
      current :: splitFrom inQuotes inAngle [] rest
    else splitFrom inQuotes inAngle (current ++ [char]) rest

def splitAddressHeader : Option Text → List Text
  | none | some [] => []
  | some header => ((splitFrom false false [] header).map trim).filter (· ≠ [])

def dedupeFrom (lower : Text → Text) (exclude : List Text) : List Text → List Text → List Text
  | _, [] => []
  | seen, addr :: addrs =>
    if addr = [] ∨ seen.contains (lower addr) ∨ exclude.contains (lower addr) then
      dedupeFrom lower exclude seen addrs
    else addr :: dedupeFrom lower exclude (lower addr :: seen) addrs

def dedupeExcluding (lower : Text → Text) (addrs exclude : List Text) : List Text :=
  dedupeFrom lower exclude [] addrs

structure MessageDetail where
  fromAddr : Option Text
  replyTo : Option Text
  toAddrs : Option (List Text)
  ccAddrs : Option (List Text)
  subject : Option Text
  bodyText : Option Text
  receivedAt : Option Text
  messageId : Option Text
  references : Option (List Text)

structure ReplyDraft where
  toAddrs : List Text
  cc : List Text
  subject : Text
  quotedText : Text
  attribution : Text
  inReplyTo : Option Text
  references : Option (List Text)

inductive Mode
  | reply
  | replyAll
  deriving DecidableEq

def subjectWithPrefix (subject : Option Text) : Text :=
  let base := subject.getD "(no subject)".toList
  if (base.take 3).map Char.toLower = "re:".toList then base else "Re: ".toList ++ base

def replyAttribution (formatFullDate : Option Text → Text) (source : MessageDetail) : Text :=
  "On ".toList ++ formatFullDate source.receivedAt ++ ", ".toList ++
    extractSenderName source.fromAddr ++ " wrote:".toList

def quotedPlainText (source : MessageDetail) (attribution : Text) : Text :=
  let quoted := ['\n'].intercalate
    (((source.bodyText.getD []).splitOn '\n').map fun line => "> ".toList ++ line)
  "\n\n".toList ++ attribution ++ '\n' :: quoted

def replyRecipients (lower : Text → Text) (source : MessageDetail) : List Text :=
  let senderEmail := extractEmail source.fromAddr
  let replyTo := ((splitAddressHeader source.replyTo).map fun a => extractEmail (some a)).filter
    (· ≠ [])
  dedupeExcluding lower
    (if replyTo ≠ [] then replyTo else if senderEmail ≠ [] then [senderEmail] else []) []

def buildReply (lower : Text → Text) (formatFullDate : Option Text → Text)
    (source : MessageDetail) (ownAddresses : List Text) (mode : Mode) : ReplyDraft :=
  let toAddrs := replyRecipients lower source
  let others := (source.toAddrs.getD [] ++ source.ccAddrs.getD []).map fun a => extractEmail (some a)
  let exclude := ownAddresses.map (fun a => lower (extractEmail (some a))) ++ toAddrs.map lower
  let references := source.references.getD [] ++
    (match source.messageId with | none | some [] => [] | some id => [id])
  let attribution := replyAttribution formatFullDate source
  { toAddrs := toAddrs
    cc := if mode = .replyAll then dedupeExcluding lower others exclude else []
    subject := subjectWithPrefix source.subject
    quotedText := quotedPlainText source attribution
    attribution := attribution
    inReplyTo := source.messageId
    references := if references ≠ [] then some references else none }

/-! ### Headers -/

/-- A character that stands for itself outside quotes. -/
def wordChar (c : Char) : Bool := !blank c && decide (c ∉ ['\x22', '<', '>', ',', ';', '\\'])

structure Atom where
  text : Text
  nonempty : text ≠ []
  plain : ∀ c ∈ text, wordChar c = true

inductive Word
  | atom (a : Atom)
  | quoted (content : Text)

/-- As it is written, quote marks and backslashes escaped. -/
def Word.text : Word → Text
  | .atom a => a.text
  | .quoted content =>
    '\x22' :: content.flatMap (fun c => if c = '\x22' ∨ c = '\\' then ['\\', c] else [c]) ++ ['\x22']

structure AddrSpec where
  localPart : Word
  domain : Atom

def AddrSpec.text (a : AddrSpec) : Text := a.localPart.text ++ '@' :: a.domain.text

abbrev Phrase := List Word

def phraseText (p : Phrase) : Text := p.flatMap fun w => w.text ++ [' ']

inductive Mailbox
  | bare (a : AddrSpec)
  | named (p : Phrase) (a : AddrSpec)

def Mailbox.addr : Mailbox → AddrSpec
  | .bare a | .named _ a => a

def Mailbox.phrase : Mailbox → Phrase
  | .bare _ => []
  | .named p _ => p

def Mailbox.text : Mailbox → Text
  | .bare a => a.text
  | .named p a => phraseText p ++ '<' :: a.text ++ ['>']

def headerText : List Mailbox → Option Text
  | [] => none
  | boxes => some ([',', ' '].intercalate (boxes.map Mailbox.text))

/-- The mailboxes of a message: From, Reply-To, To and Cc. -/
structure Headers where
  sender : List Mailbox
  replyTo : List Mailbox
  toBoxes : List Mailbox
  ccBoxes : List Mailbox

def Headers.mailboxes (m : Headers) : List Mailbox :=
  m.sender ++ m.replyTo ++ m.toBoxes ++ m.ccBoxes

/-- The message with these headers and the other fields of `rest`. -/
def Headers.detail (m : Headers) (rest : MessageDetail) : MessageDetail :=
  { rest with
    fromAddr := headerText m.sender
    replyTo := headerText m.replyTo
    toAddrs := some (m.toBoxes.map Mailbox.text)
    ccAddrs := some (m.ccBoxes.map Mailbox.text) }

end MailVerdict.Model.Reply
