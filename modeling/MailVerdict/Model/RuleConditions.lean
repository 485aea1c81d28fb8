import MailVerdict.Model.PipelineDocument
import Mathlib.Data.List.Infix

/-!
# Rule conditions

A `match` stage's `when` is a tree of `all`, `any` and `not` over conditions of one key. The
evaluator takes any value JSON has and looks at none before it uses it, so a value of the wrong
kind raises what Python raises there. Only `re.error` is caught.

`Texts` is what runs outside the repository: `str.lower`, `email.utils.parseaddr`, the regular
expressions, and how a size compares with a number.
-/

namespace MailVerdict.Model.RuleConditions

open MailVerdict.Computation
open Model.PipelineDocument

/-- The exceptions that leave the evaluator. -/
inductive Raised
  | attribute
  | type
  | value
  | overflow

/-- What compiling a pattern may raise: `re.error`, or another exception, as an `OverflowError` for
a repetition that is too large. -/
inductive PatternFault
  | invalid
  | other (e : Raised)

/-- `compile p text` is `re.search(p, text, re.IGNORECASE)`. -/
structure Texts (P : Platform) where
  lower : String → String
  parseaddr : String → String × String
  compile : String → Except PatternFault (String → Bool)
  sizeGt : ℤ → P.Number → Bool
  sizeLt : ℤ → P.Number → Bool

structure FolderView where
  imapName : String

/-- What conditions read of a message.
SOURCE: pipeline/message_view.py:83-116 -/
structure MessageView where
  accountId : Uuid
  folder : FolderView
  subject : String
  fromAddr : String
  headers : List (String × String)
  body : String
  sizeBytes : ℤ
  tags : List String
  attachmentTypes : List String
  hasAttachments : Bool

structure VerdictView where
  isSpam : Bool

/-- SOURCE: rules/conditions.py:19-43 -/
structure MailContext where
  subject : String
  bodyText : String
  fromAddr : String
  rawHeaders : List (String × String)
  sizeBytes : ℤ
  hasAttachments : Bool
  attachmentTypes : List String
  folder : String
  tags : List String
  verdictIsSpam : Option Bool

variable {P : Platform}

/-- SOURCE: pipeline/message_view.py:213-216 -/
def extractDisplayNameAndAddr (T : Texts P) (fromHeader : String) : String × String :=
  T.parseaddr fromHeader

/-- SOURCE: pipeline/stages/match.py:70-91 -/
def mailContext (T : Texts P) (msg : MessageView) (verdict : Option VerdictView) : MailContext where
  subject := msg.subject
  bodyText := msg.body
  fromAddr := (extractDisplayNameAndAddr T msg.fromAddr).2
  rawHeaders := msg.headers
  sizeBytes := msg.sizeBytes
  hasAttachments := msg.hasAttachments
  attachmentTypes := msg.attachmentTypes
  folder := msg.folder.imapName
  tags := msg.tags
  verdictIsSpam := verdict.map VerdictView.isSpam

/-! ## Python -/

/-- `needle in hay` -/
def isIn (needle hay : String) : Bool := decide (needle.toList <:+: hay.toList)

def lower (T : Texts P) : Value P → Except Raised String
  | .str s => .ok (T.lower s)
  | _ => .error .attribute

/-- `bool(re.search(pattern, text, re.IGNORECASE))`, false where the pattern is invalid. -/
def search (T : Texts P) (pattern : Value P) (text : String) : Except Raised Bool :=
  match pattern with
  | .str p =>
    match T.compile p with
    | .ok found => .ok (found text)
    | .error .invalid => .ok false
    | .error (.other e) => .error e
  | _ => .error .type

def compareSize (size : ℤ) (number : ℤ → P.Number → Bool) (integer : ℤ → ℤ → Bool) :
    Value P → Except Raised Bool
  | .num n => .ok (number size n)
  | .bool b => .ok (integer size b.toNat)
  | _ => .error .type

/-! ## Leaves -/

variable (T : Texts P) (ctx : MailContext)

def evalContains (text : String) (value : Value P) : Except Raised Bool :=
  (lower T value).map fun needle => isIn needle (T.lower text)

/-- SOURCE: rules/conditions.py:142-148 -/
def evalSenderMatch (value : Value P) : Except Raised Bool :=
  let fromLower := T.lower ctx.fromAddr
  (lower T value).map fun valueLower =>
    if isIn "@" valueLower then decide (fromLower = valueLower)
    else ('@' :: valueLower.toList).isSuffixOf fromLower.toList

/-- SOURCE: rules/conditions.py:150-153 -/
def evalSenderDomain (value : Value P) : Except Raised Bool :=
  (lower T value).map fun valueLower =>
    ('@' :: valueLower.toList).isSuffixOf (T.lower ctx.fromAddr).toList

/-- SOURCE: rules/conditions.py:155-169 -/
def evalHeaderMatch (value : Value P) : Except Raised Bool :=
  match value with
  | .obj fields =>
    let headerField := T.lower (pyStr ((Json.get? "field" fields).getD (.str "")))
    let pattern := (Json.get? "pattern" fields).getD (.str "")
    search T pattern ((Json.get? headerField ctx.rawHeaders).getD "")
  | _ => .error .attribute

/-- SOURCE: rules/conditions.py:171-174 -/
def evalHeaderExists (value : Value P) : Except Raised Bool :=
  .ok (Json.get? (T.lower (pyStr value)) ctx.rawHeaders).isSome

def evalSizeGt (value : Value P) : Except Raised Bool :=
  compareSize ctx.sizeBytes T.sizeGt (fun size n => decide (n < size)) value

def evalSizeLt (value : Value P) : Except Raised Bool :=
  compareSize ctx.sizeBytes T.sizeLt (fun size n => decide (size < n)) value

/-- SOURCE: rules/conditions.py:184-188 -/
def evalHasAttachment (value : Value P) : Except Raised Bool :=
  match value with
  | .str s => .ok (ctx.attachmentTypes.any fun t => isIn (T.lower s) (T.lower t))
  | _ => .ok ctx.hasAttachments

def evalFolderIs (value : Value P) : Except Raised Bool :=
  (lower T value).map fun name => decide (T.lower ctx.folder = name)

def evalTagIs (value : Value P) : Except Raised Bool :=
  (lower T value).map fun name => ctx.tags.any fun t => decide (T.lower t = name)

/-- SOURCE: rules/conditions.py:198-203 -/
def evalVerdictIs (value : Value P) : Except Raised Bool :=
  match ctx.verdictIsSpam with
  | none => .ok false
  | some isSpam =>
    match value with
    | .str s => .ok (decide (isSpam = decide (s = "spam")))
    | _ => .ok (decide (isSpam = false))

/-- A condition of one key; an unknown one is false.
SOURCE: rules/conditions.py:65-82, 108-118 -/
def evaluate (key : String) (value : Value P) : Except Raised Bool :=
  if key = "subject_contains" then evalContains T ctx.subject value
  else if key = "body_contains" then evalContains T ctx.bodyText value
  else if key = "subject_matches" then search T value ctx.subject
  else if key = "body_matches" then search T value ctx.bodyText
  else if key = "sender_match" then evalSenderMatch T ctx value
  else if key = "sender_domain" then evalSenderDomain T ctx value
  else if key = "header_match" then evalHeaderMatch T ctx value
  else if key = "header_exists" then evalHeaderExists T ctx value
  else if key = "size_gt" then evalSizeGt T ctx value
  else if key = "size_lt" then evalSizeLt T ctx value
  else if key = "has_attachment" then evalHasAttachment T ctx value
  else if key = "folder_is" then evalFolderIs T ctx value
  else if key = "tag_is" then evalTagIs T ctx value
  else if key = "verdict_is" then evalVerdictIs ctx value
  else .ok false

/-! ## Trees -/

/-- What `all` and `any` make of a value that is no list, `whenEmpty` where there is nothing to
iterate: a text and an object give texts, and a text is no condition. -/
def evaluateNoList (whenEmpty : Bool) : Value P → Except Raised Bool
  | .str s => if s = "" then .ok whenEmpty else .error .attribute
  | .obj fields => if fields.isEmpty then .ok whenEmpty else .error .attribute
  | _ => .error .type

/-- What is no object of one key: an empty one is false, several keys are a `ValueError`, and
`len`, `keys` and `items` are asked of the rest. -/
def evaluateNoKey : Value P → Except Raised Bool
  | .obj [] => .ok false
  | .obj _ => .error .value
  | .str _ => .error .attribute
  | .arr [.str key] => if key ∈ ["all", "any", "not"] then .error .type else .error .attribute
  | .arr _ => .error .attribute
  | _ => .error .type

mutual

/-- SOURCE: rules/conditions.py:257-306 -/
def evaluateCondition : Value P → Except Raised Bool
  | .obj [(key, value)] =>
    if key = "all" then
      match value with
      | .arr items => evaluateAll items
      | value => evaluateNoList true value
    else if key = "any" then
      match value with
      | .arr items => evaluateAny items
      | value => evaluateNoList false value
    else if key = "not" then (evaluateCondition value).map Bool.not
    else evaluate T ctx key value
  | condition => evaluateNoKey condition

def evaluateAll : List (Value P) → Except Raised Bool
  | [] => .ok true
  | item :: items =>
    match evaluateCondition item with
    | .ok true => evaluateAll items
    | .ok false => .ok false
    | .error e => .error e

def evaluateAny : List (Value P) → Except Raised Bool
  | [] => .ok false
  | item :: items =>
    match evaluateCondition item with
    | .ok true => .ok true
    | .ok false => evaluateAny items
    | .error e => .error e

end

/-- SOURCE: pipeline/stages/match.py:59-63 -/
def matchesMessage (when : Fields P) (msg : MessageView) (verdict : Option VerdictView) :
    Except Raised Bool :=
  if when.isEmpty then .ok true else evaluateCondition T (mailContext T msg verdict) (.obj when)

/-- The tree a `match` stage is built with; no other stage has one.
SOURCE: pipeline/stages/match.py:25-29, pipeline/registry.py:25-60 -/
def stageWhen (definition : StageDefinition P) : Option (Fields P) :=
  match buildStage definition, pyDict definition.config with
  | .ok .match_, some config =>
    match Json.get? "when" config with
    | some (.obj when) => some when
    | some _ => none
    | none => some []
  | _, _ => none

end MailVerdict.Model.RuleConditions
