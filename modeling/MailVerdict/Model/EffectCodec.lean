import MailVerdict.Model.Webhooks

/-!
# Effects as stored

`effect_codec.py`: one dictionary with one key an effect, in a rule's configuration and in the
trace of a run. `parse_effect` reads it, `effect_to_dict` writes it. What a dataclass holds is not
checked against its annotations, so a field that is only copied is a value here; an absent one
and a null are the same. `wording` is what pydantic makes of a problem of a webhook.

SOURCE: pipeline/effect_codec.py:39-132, pipeline/contracts.py:39-134
-/

namespace MailVerdict.Model.EffectCodec

open MailVerdict.Computation
open Model.PipelineDocument (Platform Value Fields PyError Uuid truthy pyStr iterate
  uuidOf)
open Model.Webhooks (WebhookSpec Method Problem modelValidate dictOf)

variable (P : Platform)

/-- SOURCE: pipeline/contracts.py:39-134 -/
inductive Effect
  | move (folderName specialUse : Value P) (folderId : Option Uuid)
  | trash
  | expunge
  | setFlags (seen flagged answered deleted : Value P)
  | keywords (add remove : List (Value P))
  | tag (add remove : List (Value P))
  | recordVerdict (isSpam : Bool) (reasoning : String) (model : Value P)
  | notify (text : String)
  | enqueueOrder (reason : String)
  | webhook (spec : WebhookSpec)

inductive ParseError
  | config (text : String)
  | raised (e : PyError)

/-- What reading a webhook takes from outside. -/
structure Outside where
  netlocError : String → Option String
  wording : Problem → String

variable {P}

/-- `value.get(key)`: an absent key reads as `None`. -/
def getOr (key : String) (fields : Fields P) : Value P := (Json.get? key fields).getD .null

/-- `value.get`, on a value that has it. -/
def mapping : Value P → Except ParseError (Fields P)
  | .obj fields => .ok fields
  | _ => .error (.raised .attribute)

def raised {α : Type} : Except PyError α → Except ParseError α
  | .ok a => .ok a
  | .error e => .error (.raised e)

/-- `tuple(value.get(key, ()))` -/
def tupleOf (key : String) (fields : Fields P) : Except ParseError (List (Value P)) :=
  match Json.get? key fields with
  | none => .ok []
  | some v => raised (iterate v)

/-- `uuid.UUID(v) if v else None` -/
def optionalUuid (v : Value P) : Except ParseError (Option Uuid) :=
  if truthy v then (raised (uuidOf v)).map some else .ok none

/-- `str(value.get(key, ""))` -/
def textOf (key : String) (fields : Fields P) : String :=
  pyStr ((Json.get? key fields).getD (.str ""))

def isSpamOf : Value P → Except ParseError (Value P)
  | .obj fields =>
    match Json.get? "is_spam" fields with
    | some v => .ok v
    | none => .error (.raised .key)
  | _ => .error (.raised .type)

variable (O : Outside)

def webhookProblems (problems : List Problem) : String :=
  "webhook: " ++ "; ".intercalate
    (problems.map fun p => ".".intercalate p.loc ++ ": " ++ O.wording p)

/-- The branch of a kind, for a value with `None` and the empty values as `{}`.
SOURCE: pipeline/effect_codec.py:51-98 -/
def parseKind (kind : String) (value : Value P) : Except ParseError (Effect P) :=
  if kind = "move" then do
    let fields ← mapping value
    let folderId ← optionalUuid (getOr "folder_id" fields)
    pure (.move (getOr "folder_name" fields) (getOr "special_use" fields) folderId)
  else if kind = "trash" then .ok .trash
  else if kind = "expunge" then .ok .expunge
  else if kind = "set_flags" then do
    let fields ← mapping value
    pure (.setFlags (getOr "seen" fields) (getOr "flagged" fields) (getOr "answered" fields)
      (getOr "deleted" fields))
  else if kind = "keywords" then do
    let fields ← mapping value
    let add ← tupleOf "add" fields
    let remove ← tupleOf "remove" fields
    pure (.keywords add remove)
  else if kind = "tag" then do
    let fields ← mapping value
    let add ← tupleOf "add" fields
    let remove ← tupleOf "remove" fields
    pure (.tag add remove)
  else if kind = "record_verdict" then do
    let isSpam ← isSpamOf value
    let fields ← mapping value
    pure (.recordVerdict (truthy isSpam) (textOf "reasoning" fields) (getOr "model" fields))
  else if kind = "notify" then do
    let fields ← mapping value
    pure (.notify (textOf "text" fields))
  else if kind = "enqueue_order" then do
    let fields ← mapping value
    pure (.enqueueOrder (textOf "reason" fields))
  else if kind = "webhook" then
    match modelValidate O.netlocError value with
    | .ok spec => .ok (.webhook spec)
    | .error problems => .error (.config (webhookProblems O problems))
  else .error (.config ("unknown effect type " ++ P.repr kind))

/-- SOURCE: pipeline/effect_codec.py:43-98 -/
def parseEffect : Fields P → Except ParseError (Effect P)
  | [(kind, raw)] => parseKind O kind (if truthy raw then raw else .obj [])
  | raw => .error (.config ("effect dict must have exactly one key, got " ++ P.str (.obj raw)))

/-- `str(id) if id else None` -/
def uuidValue : Option Uuid → Value P
  | none => .null
  | some u => .str u.text

def optionalText : Option String → Value P
  | none => .null
  | some s => .str s

/-- SOURCE: pipeline/effect_codec.py:101-132 -/
def effectToDict : Effect P → Fields P
  | .move folderName specialUse folderId =>
    [("move", .obj [("folder_name", folderName), ("special_use", specialUse),
      ("folder_id", uuidValue folderId)])]
  | .trash => [("trash", .obj [])]
  | .expunge => [("expunge", .obj [])]
  | .setFlags seen flagged answered deleted =>
    [("set_flags", .obj [("seen", seen), ("flagged", flagged), ("answered", answered),
      ("deleted", deleted)])]
  | .keywords add remove => [("keywords", .obj [("add", .arr add), ("remove", .arr remove)])]
  | .tag add remove => [("tag", .obj [("add", .arr add), ("remove", .arr remove)])]
  | .recordVerdict isSpam reasoning model =>
    [("record_verdict", .obj [("is_spam", .bool isSpam), ("reasoning", .str reasoning),
      ("model", model)])]
  | .notify text => [("notify", .obj [("text", .str text)])]
  | .enqueueOrder reason => [("enqueue_order", .obj [("reason", .str reason)])]
  | .webhook spec =>
    [("webhook", .obj [("name", .str spec.name), ("url", .str spec.url),
      ("method", .str spec.method.text),
      ("headers", .obj (dictOf (spec.headers.map fun h => (h.1, .str h.2)))),
      ("received_at_param", optionalText spec.receivedAtParam)])]

end MailVerdict.Model.EffectCodec
