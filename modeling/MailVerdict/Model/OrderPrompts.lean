import MailVerdict.Computation.JsonLiteral
import MailVerdict.Model.WriteAssembly

/-!
# The user prompts of the orders calls

The prompts of the decide and the write call, as the pieces they are put together from: what the
builder writes itself, what it puts in as it is, and what it puts in through `_json_field`. A
prompt is the text of its pieces.
-/

namespace MailVerdict.Model.OrderPrompts

open Computation.JsonLiteral (dumps)
open Model.Identifiers (Text strip)
open Model.WriteAssembly (PromptDocument PromptMail)

def replaceChar (c : Char) (new text : Text) : Text :=
  text.flatMap fun d => if d = c then new else [d]

/-- `_escape_delimiter_breakout`. SOURCE: orders/prompts.py:34-35 -/
def escapeDelimiterBreakout (text : Text) : Text :=
  replaceChar '>' ['\\', 'u', '0', '0', '3', 'e']
    (replaceChar '<' ['\\', 'u', '0', '0', '3', 'c'] text)

/-- `_json_field`. SOURCE: orders/prompts.py:38-41 -/
def jsonField (value : Text) : Text := escapeDelimiterBreakout (dumps value)

/-- A piece of a prompt: the builder's own text, a value as it is, a value through `_json_field`. -/
inductive Piece
  | own (text : String)
  | raw (text : Text)
  | json (value : Text)

def Piece.text : Piece → Text
  | .own text => text.toList
  | .raw text => text
  | .json value => jsonField value

def render (pieces : List Piece) : Text := pieces.flatMap Piece.text

/-- `sep.join(parts)`, the separator the builder's own. -/
def joined (sep : String) : List (List Piece) → List Piece
  | [] => []
  | [part] => part
  | part :: parts => part ++ .own sep :: joined sep parts

def joinedText (sep : Text) : List Text → Text
  | [] => []
  | [part] => part
  | part :: parts => part ++ sep ++ joinedText sep parts

structure Minute where
  year : ℕ
  month : ℕ
  day : ℕ
  hour : ℕ
  minute : ℕ

def twoDigits (n : ℕ) : Text := [Nat.digitChar (n / 10 % 10), Nat.digitChar (n % 10)]

/-- `strftime("%Y-%m-%d %H:%M UTC")`. -/
def strftime (t : Minute) : Text :=
  Nat.toDigits 10 t.year ++ '-' :: twoDigits t.month ++ '-' :: twoDigits t.day ++
    ' ' :: twoDigits t.hour ++ ':' :: twoDigits t.minute ++ [' ', 'U', 'T', 'C']

/-- SOURCE: orders/candidates.py:204-208 -/
structure CandidateMail where
  receivedAt : Minute
  fromAddr : Text
  subject : Text

/-- SOURCE: orders/candidates.py:211-228 -/
structure Candidate where
  merchant : Text
  subject : Text
  status : Text
  isOpen : Bool
  summary : Text
  mailCount : ℕ
  firstMailAt : Option Minute
  lastMailAt : Option Minute
  numbers : List (Text × Text)
  reasons : List Text
  latestMails : List CandidateMail

/-- What a mail of the write prompt shows besides its body. -/
structure MailHeader where
  receivedAt : Text
  fromAddr : Text
  subject : Text

/-- The texts an order has when it was written before. -/
structure CurrentText where
  merchant : Text
  subject : Text
  status : Text
  summary : Text

/-- The pages of a document, where it has any. -/
def pagesPieces : Option ℕ → List Piece
  | some pages => if pages = 0 then [] else [.own " pages=", .raw (Nat.toDigits 10 pages)]
  | none => []

/-- `_document_block`. SOURCE: orders/prompts.py:59-67 -/
def documentBlock (tag : String) (document : PromptDocument) : List Piece :=
  [.own ("<" ++ tag ++ " n=\""), .raw (Nat.toDigits 10 document.index), .own "\" name=",
      .json document.name, .own " type=", .json document.contentType] ++
    pagesPieces document.pageCount ++
    [.own " method=", .raw document.method] ++
    (if document.added = [] then [] else [.own " added=", .raw document.added]) ++
    [.own ">\n", .json document.text, .own ("\n</" ++ tag ++ ">")]

/-- The attachment blocks of a mail, each on lines of its own. -/
def attachmentBlocks (documents : List PromptDocument) : List Piece :=
  documents.flatMap fun document => .own "\n" :: documentBlock "attachment" document

def mailDay : Option Minute → List Piece
  | some t => [.raw (strftime t)]
  | none => [.own "unknown"]

def candidateMailLine (mail : CandidateMail) : List Piece :=
  [.own "    ", .raw (strftime mail.receivedAt), .own " | ", .json (mail.fromAddr.take 50),
    .own " | ", .json (mail.subject.take 90)]

/-- `_format_candidate_block`. SOURCE: orders/prompts.py:155-181 -/
def formatCandidateBlock (handle : Text) (candidate : Candidate) : List Piece :=
  joined "\n" <|
    [[.own "[", .raw handle, .own "] ", .raw candidate.merchant, .own ": ",
        .raw candidate.subject, .own " - ", .raw candidate.status,
        .own (if candidate.isOpen then " (open)" else " (finished)")],
      [.own "  mails: ", .raw (Nat.toDigits 10 candidate.mailCount), .own ", first "] ++
        mailDay candidate.firstMailAt ++ .own ", last " :: mailDay candidate.lastMailAt,
      .own "  numbers: " ::
        (if candidate.numbers = [] then [.own "none"]
        else joined ", " (candidate.numbers.map fun n => [.raw n.1, .own " ", .raw n.2])),
      .own "  why listed: " :: joined "; " (candidate.reasons.map fun reason => [.raw reason]),
      [.own "  summary: ", .json (candidate.summary.take 400)],
      [.own "  latest mails:"]] ++
    candidate.latestMails.map candidateMailLine

/-- `_candidate_blocks`. SOURCE: orders/prompts.py:184-191 -/
def candidateBlocks (candidates : List Candidate) : List Piece :=
  if candidates = [] then [.own "(no candidate entries)"]
  else joined "\n" ((candidates.zipIdx 1).map fun c =>
    formatCandidateBlock ('C' :: Nat.toDigits 10 c.2) c.1)

/-- The template `orders_decide_user.md.j2`, without its last line feed. -/
def decideTemplate (newMail : List Piece) (candidates : List Candidate) : List Piece :=
  newMail ++ .own "\n\n<candidates>\n" :: candidateBlocks candidates ++ [.own "\n</candidates>"]

def attachmentNames (attachments : List (Text × Text)) : Text :=
  if attachments = [] then ['n', 'o', 'n', 'e']
  else joinedText [',', ' '] ((attachments.take 6).map fun a => a.1 ++ ' ' :: '(' :: a.2 ++ [')'])

structure NewMail where
  subject : Text
  fromAddr : Text
  toAddrs : Text
  receivedAt : Text
  attachments : List (Text × Text)
  body : Text
  documents : List PromptDocument

def newMailPieces (mail : NewMail) : List Piece :=
  [.own "<new_mail>\nreceived: ", .raw mail.receivedAt, .own "\nfrom: ", .json mail.fromAddr,
      .own "\nto: ", .json mail.toAddrs, .own "\nsubject: ", .json mail.subject,
      .own "\nattachments: ", .json (attachmentNames mail.attachments), .own "\nbody: ",
      .json mail.body] ++
    attachmentBlocks mail.documents ++ [.own "\n</new_mail>"]

/-- `render_prompt`: the template's text with its last line feed, stripped.
SOURCE: core/prompts.py:75-91 -/
def renderPrompt (template : List Piece) : Text := strip (render (template ++ [.own "\n"]))

def decideUserPieces (mail : NewMail) (candidates : List Candidate) : List Piece :=
  decideTemplate (newMailPieces mail) candidates

/-- `build_decide_user_prompt`. SOURCE: orders/prompts.py:194-223 -/
def buildDecideUserPrompt (mail : NewMail) (candidates : List Candidate) : Text :=
  renderPrompt (decideUserPieces mail candidates)

def decideFilePieces (addedAt : Text) (documents : List PromptDocument)
    (candidates : List Candidate) : List Piece :=
  decideTemplate
    ([.own "<new_file>\nadded: ", .raw addedAt] ++ attachmentBlocks documents ++
      [.own "\n</new_file>"]) candidates

/-- `build_decide_file_prompt`. SOURCE: orders/prompts.py:226-236 -/
def buildDecideFilePrompt (addedAt : Text) (documents : List PromptDocument)
    (candidates : List Candidate) : Text :=
  renderPrompt (decideFilePieces addedAt documents candidates)

def currentTextPieces (current : CurrentText) : List Piece :=
  [.own "<current_text>\nmerchant: ", .json current.merchant, .own "\nsubject: ",
    .json current.subject, .own "\nstatus: ", .json current.status, .own "\nsummary: ",
    .json current.summary, .own "\n</current_text>"]

def writeMailPieces (i : ℕ) (m : PromptMail MailHeader) : List Piece :=
  [.own "<mail n=\"", .raw (Nat.toDigits 10 i), .own "\">\nreceived: ",
      .raw m.mail.rest.receivedAt, .own "\nfrom: ", .json m.mail.rest.fromAddr,
      .own "\nsubject: ", .json m.mail.rest.subject, .own "\nattachments: ",
      .json (attachmentNames (m.documents.map fun d => (d.name, d.contentType))),
      .own "\nbody: ", .json m.mail.body] ++
    attachmentBlocks m.documents ++ [.own "\n</mail>"]

def writeUserPieces (current : Option CurrentText) (mails : List (PromptMail MailHeader))
    (files : List PromptDocument) : List Piece :=
  joined "\n\n" ((current.toList.map currentTextPieces) ++
    ((mails.zipIdx 1).map fun m => writeMailPieces m.2 m.1) ++ files.map (documentBlock "file"))

/-- `build_write_user_prompt`. SOURCE: orders/prompts.py:338-381 -/
def buildWriteUserPrompt (current : Option CurrentText) (mails : List (PromptMail MailHeader))
    (files : List PromptDocument) : Text :=
  renderPrompt (writeUserPieces current mails files)

end MailVerdict.Model.OrderPrompts
