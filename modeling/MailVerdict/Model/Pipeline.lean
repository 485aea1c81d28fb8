import Mathlib.Data.Finset.Image
import Mathlib.Algebra.Order.Ring.Rat
import MailVerdict.Computation.KeyedTable

/-!
# The pipeline runner

A `pipeline_runs` row names a message; `PipelineRunner._execute_run` loads that
message as it is now, sends it through the stages of the current definition and
applies each stage's effects as they come, one transaction an effect. A later
stage sees the message through the view the effects were projected onto, never
through a second read.

The database here is what the run writes: the messages (with the `mail_tags` rows
of each, as a set), the verdicts and the two outboxes. Keywords are a Postgres
array built by `array_agg(DISTINCT …)` and are a set as well. What the run only
reads is `World`: the folders, the account's switches, the register behind
`OrderLookup.known`, the model behind the classify stage and the string functions
of Python that a condition calls.

Every applied effect of the trace carries the database its transaction left, so
that the places a crash can cut a run at are there to be named.
-/

namespace MailVerdict.Model.Pipeline

open MailVerdict.Computation

abbrev Uuid := ℕ

/-! ## Folders -/

/-- A `folders` row with its `folder_prefs` override.
SOURCE: database/models.py:161-200 -/
structure Folder where
  id : Uuid
  accountId : Uuid
  imapName : String
  specialUse : Option String
  specialUseOverride : Option String
  deleted : Bool

/-- `coalesce(folder_prefs.special_use_override, folders.special_use)`. -/
def Folder.effectiveSpecialUse (f : Folder) : Option String :=
  match f.specialUseOverride with
  | some u => some u
  | none => f.specialUse

/-- How a `Move` names its target.
SOURCE: pipeline/contracts.py:40-47 -/
structure FolderRef where
  folderName : Option String
  specialUse : Option String
  folderId : Option Uuid
deriving DecidableEq

/-- `FolderResolver.resolve` on the live folders of one account.
SOURCE: pipeline/context.py:95-142 -/
def resolve (folders : List Folder) (accountId : Uuid) (ref : FolderRef) : Option Uuid :=
  let live := folders.filter fun f => decide (f.accountId = accountId) && !f.deleted
  match ref.folderId with
  | some id => (live.find? fun f => decide (f.id = id)).map Folder.id
  | none =>
    match ref.folderName with
    | some name => (live.find? fun f => decide (f.imapName = name)).map Folder.id
    | none =>
      match ref.specialUse with
      | some use =>
        (live.find? fun f => decide (f.effectiveSpecialUse = some use)).map Folder.id
      | none => none

/-! ## Effects, conditions and stages -/

/-- The effects a stage may return.
SOURCE: pipeline/contracts.py:39-134 -/
inductive Effect
  | move (target : FolderRef)
  | trash
  | expunge
  | setFlags (seen flagged answered deleted : Option Bool)
  | keywords (add remove : Finset String)
  | tag (add remove : Finset String)
  | recordVerdict (isSpam : Bool) (reasoning : String) (model : Option String)
  | notify (text : String)
  | enqueueOrder (reason : String)
  | webhook (name url : String)
deriving DecidableEq

/-- The value of a condition, as the stored document has it. -/
inductive Json
  | null
  | bool (b : Bool)
  | num (q : ℚ)
  | str (s : String)
  | arr (items : List Json)
  | obj (fields : List (String × Json))

/-- The closed vocabulary of condition leaves.
SOURCE: rules/conditions.py:63-80 -/
inductive ConditionType
  | subjectContains
  | bodyContains
  | subjectMatches
  | bodyMatches
  | senderMatch
  | senderDomain
  | headerMatch
  | headerExists
  | sizeGt
  | sizeLt
  | hasAttachment
  | folderIs
  | tagIs
  | verdictIs

/-- A condition tree in the shape `_validate_condition_tree` accepts: one key an
object, a known one at every leaf. The values are not checked there.
SOURCE: pipeline/document_validation.py:101-149 -/
inductive Condition
  | leaf (type : ConditionType) (value : Json)
  | all (items : List Condition)
  | any (items : List Condition)
  | not (item : Condition)

inductive Origin
  | live
  | historical

/-- The three stage types with their configuration; `when` is `none` for an empty
tree.
SOURCE: pipeline/registry.py:20-24, pipeline/stages/match.py:26-30 -/
inductive StageConfig
  | «match» (when : Option Condition) (effects : List Effect)
  | classify
  | orders

def StageConfig.runsOn : StageConfig → Origin → Bool
  | .match _ _, _ => true
  | .classify, .live | .orders, .live => true
  | .classify, .historical | .orders, .historical => false

/-- SOURCE: pipeline/contracts.py:236-246 -/
structure StageDefinition where
  stageId : String
  config : StageConfig
  enabled : Bool
  halt : Bool
  accounts : Option (List Uuid)

/-- A stored pipeline revision, as far as a run reads it. -/
structure PipelineDefinition where
  enabled : Bool
  revision : ℕ
  stages : List StageDefinition

/-- The exceptions a stage ends a run with. `unexpected` is any other one: a
condition whose value has the wrong type raises it.
SOURCE: pipeline/contracts.py:166-204, pipeline/runner.py:244-274 -/
inductive StageError
  | transient
  | throttled
  | unavailable
  | misconfigured (stageId : String)
  | unexpected
deriving DecidableEq

/-- What a stage did with one message.
SOURCE: pipeline/contracts.py:148-158 -/
structure StageOutcome where
  matched : Bool
  effects : List Effect
  halt : Bool
deriving DecidableEq

/-- `StageOutcome(matched=False)`: the stage did not apply. -/
def StageOutcome.unmatched : StageOutcome := ⟨false, [], false⟩

/-! ## The message and its view -/

/-- What the loader takes from a message and no effect writes: the envelope, the
excerpt of the body and the attachments. `msgKey` is `compute_msg_key` of it.
SOURCE: pipeline/message_view.py:277-402 -/
structure MessageContent where
  msgKey : String
  subject : String
  fromAddr : String
  headers : List (String × String)
  body : String
  sizeBytes : ℕ
  attachmentTypes : List String
  hasAttachments : Bool
deriving DecidableEq

/-- A `messages` row, with its keywords and its `mail_tags` rows as sets. -/
structure MessageRow where
  id : Uuid
  accountId : Uuid
  folderId : Uuid
  messageIdHdr : Option String
  content : MessageContent
  isDraft : Bool
  isSeen : Bool
  isFlagged : Bool
  isAnswered : Bool
  isDeleted : Bool
  keywords : Finset String
  tags : Finset String
  expunged : Bool
deriving DecidableEq

/-- SOURCE: pipeline/message_view.py:74-80 -/
structure FolderView where
  id : Uuid
  imapName : String
  specialUse : Option String
deriving DecidableEq

/-- The snapshot a stage sees.
SOURCE: pipeline/message_view.py:83-116 -/
structure MessageView where
  messageId : Uuid
  accountId : Uuid
  folder : FolderView
  content : MessageContent
  isDraft : Bool
  isSeen : Bool
  isFlagged : Bool
  keywords : Finset String
  tags : Finset String

inductive VerdictSource
  | ai
  | rule
  | userFeedback
deriving DecidableEq

/-- A `verdicts` row, with `""` for a null `from_addr`; the table is in the order of
`created_at`. -/
structure VerdictRow where
  mailId : Uuid
  accountId : Uuid
  msgKey : String
  fromAddr : String
  isSpam : Bool
  source : VerdictSource

/-- What a run writes. A mail job is unique by account and key, a delivery also by
the webhook's name. -/
structure Database where
  messages : KeyedTable MessageRow.id
  verdicts : List VerdictRow
  orderJobs : List (Uuid × String)
  deliveries : List (String × Uuid × String)

/-- What a run reads besides the message.
`reSearch` is `re.search(pattern, text, re.IGNORECASE)`, with `none` for `re.error`;
`bareAddr` is the address `email.utils.parseaddr` finds. -/
structure World where
  folders : List Folder
  spamEnabled : Uuid → Bool
  ordersEnabled : Uuid → Bool
  ordersReason : MessageContent → Option String
  classify : MessageContent → Except StageError (Bool × String × Option String)
  lower : String → String
  pyStr : Json → String
  reSearch : String → String → Option Bool
  bareAddr : String → String

structure PipelineRun where
  accountId : Uuid
  messageId : Option Uuid
  msgKey : String
  origin : Origin
  apply : Bool

/-! ## Conditions -/

/-- SOURCE: rules/conditions.py:18-43 -/
structure MailContext where
  subject : String
  bodyText : String
  fromAddr : String
  rawHeaders : List (String × String)
  sizeBytes : ℕ
  hasAttachments : Bool
  attachmentTypes : List String
  folder : String
  tags : Finset String
  verdictIsSpam : Option Bool

/-- `needle in hay` on strings. -/
def isIn (needle hay : String) : Bool := decide (needle.toList <:+: hay.toList)

/-- `text.endswith(suffix)`. -/
def endsWith (text suffix : String) : Bool := suffix.toList.isSuffixOf text.toList

section Evaluation

variable (W : World) (ctx : MailContext)

/-- `value.lower()`: an `AttributeError` unless the value is a string. -/
def lowered : Json → Except StageError String
  | .str s => .ok (W.lower s)
  | _ => .error .unexpected

/-- `re.search` under the evaluators' `except re.error`; a pattern that is no
string is a `TypeError`, which they do not catch. -/
def searched (pattern : Json) (text : String) : Except StageError Bool :=
  match pattern with
  | .str p => .ok ((W.reSearch p text).getD false)
  | _ => .error .unexpected

/-- A number to compare a size with; `True` and `False` are numbers in Python. -/
def numberOf : Json → Except StageError ℚ
  | .num q => .ok q
  | .bool b => .ok (if b then 1 else 0)
  | _ => .error .unexpected

/-- `_eval_header_match`.
SOURCE: rules/conditions.py:158-172 -/
def evalHeaderMatch : Json → Except StageError Bool
  | .obj fields =>
    let field := W.lower (match fields.lookup "field" with
      | some v => W.pyStr v
      | none => "")
    let pattern := (fields.lookup "pattern").getD (.str "")
    searched W pattern ((ctx.rawHeaders.lookup field).getD "")
  | _ => .error .unexpected

/-- `ConditionEvaluator.evaluate`, one branch an `_eval_` method.
SOURCE: rules/conditions.py:84-216 -/
def evaluate : ConditionType → Json → Except StageError Bool
  | .subjectContains, v => (lowered W v).map fun s => isIn s (W.lower ctx.subject)
  | .bodyContains, v => (lowered W v).map fun s => isIn s (W.lower ctx.bodyText)
  | .subjectMatches, v => searched W v ctx.subject
  | .bodyMatches, v => searched W v ctx.bodyText
  | .senderMatch, v => (lowered W v).map fun s =>
    if isIn "@" s then decide (W.lower ctx.fromAddr = s)
    else endsWith (W.lower ctx.fromAddr) ("@" ++ s)
  | .senderDomain, v => (lowered W v).map fun s => endsWith (W.lower ctx.fromAddr) ("@" ++ s)
  | .headerMatch, v => evalHeaderMatch W ctx v
  | .headerExists, v => .ok (ctx.rawHeaders.lookup (W.lower (W.pyStr v))).isSome
  | .sizeGt, v => (numberOf v).map fun q => decide (q < (ctx.sizeBytes : ℚ))
  | .sizeLt, v => (numberOf v).map fun q => decide ((ctx.sizeBytes : ℚ) < q)
  | .hasAttachment, .str s =>
    .ok (ctx.attachmentTypes.any fun t => isIn (W.lower s) (W.lower t))
  | .hasAttachment, _ => .ok ctx.hasAttachments
  | .folderIs, v => (lowered W v).map fun s => decide (W.lower ctx.folder = s)
  | .tagIs, v => (lowered W v).map fun s => decide (s ∈ ctx.tags.image W.lower)
  | .verdictIs, v => .ok (match ctx.verdictIsSpam, v with
      | none, _ => false
      | some isSpam, .str s => isSpam == decide (s = "spam")
      | some isSpam, _ => isSpam == false)

mutual

/-- SOURCE: rules/conditions.py:262-306 -/
def evaluateCondition : Condition → Except StageError Bool
  | .leaf type value => evaluate W ctx type value
  | .all items => evaluateAll items
  | .any items => evaluateAny items
  | .not item => (evaluateCondition item).map fun b => !b

/-- `all(…)`, which stops at the first item that does not hold. -/
def evaluateAll : List Condition → Except StageError Bool
  | [] => .ok true
  | c :: cs =>
    match evaluateCondition c with
    | .error x => .error x
    | .ok false => .ok false
    | .ok true => evaluateAll cs

/-- `any(…)`, which stops at the first item that holds. -/
def evaluateAny : List Condition → Except StageError Bool
  | [] => .ok false
  | c :: cs =>
    match evaluateCondition c with
    | .error x => .error x
    | .ok true => .ok true
    | .ok false => evaluateAny cs

end

end Evaluation

/-- `_mail_context`.
SOURCE: pipeline/stages/match.py:71-96 -/
def mailContext (W : World) (msg : MessageView) (verdict : Option Bool) : MailContext where
  subject := msg.content.subject
  bodyText := msg.content.body
  fromAddr := W.bareAddr msg.content.fromAddr
  rawHeaders := msg.content.headers
  sizeBytes := msg.content.sizeBytes
  hasAttachments := msg.content.hasAttachments
  attachmentTypes := msg.content.attachmentTypes
  folder := msg.folder.imapName
  tags := msg.tags
  verdictIsSpam := verdict

/-- `matches_message`: an empty tree always matches.
SOURCE: pipeline/stages/match.py:59-63 -/
def matchesMessage (W : World) (when : Option Condition) (msg : MessageView)
    (verdict : Option Bool) : Except StageError Bool :=
  match when with
  | none => .ok true
  | some c => evaluateCondition W (mailContext W msg verdict) c

/-! ## Loading a message -/

/-- `load_message_view`: nothing for a row that is gone or expunged, or whose
folder is gone or deleted.
SOURCE: pipeline/message_view.py:277-402 -/
def loadMessageView (W : World) (db : Database) (messageId : Uuid) : Option MessageView :=
  match db.messages.find? messageId with
  | none => none
  | some r =>
    if r.expunged then none
    else
      match W.folders.find? fun f => decide (f.id = r.folderId) with
      | none => none
      | some f =>
        if f.deleted then none
        else some {
          messageId := r.id, accountId := r.accountId,
          folder := ⟨f.id, f.imapName, f.effectiveSpecialUse⟩,
          content := r.content, isDraft := r.isDraft, isSeen := r.isSeen,
          isFlagged := r.isFlagged, keywords := r.keywords, tags := r.tags }

/-- A live row of the account with the header the key holds, when it holds one.
SOURCE: pipeline/runner.py:396-408 -/
def resolveByHeader (db : Database) (run : PipelineRun) : Option Uuid :=
  if "sha256:".toList.isPrefixOf run.msgKey.toList then none
  else
    (db.messages.rows.find? fun r => decide (r.accountId = run.accountId) &&
      decide (r.messageIdHdr = some run.msgKey) && !r.expunged).map MessageRow.id

/-- `_load_view`: by the id of the run, else by the durable key.
SOURCE: pipeline/runner.py:385-409 -/
def loadView (W : World) (db : Database) (run : PipelineRun) : Option MessageView :=
  match run.messageId.bind (loadMessageView W db) with
  | some view => some view
  | none => (resolveByHeader db run).bind (loadMessageView W db)

/-- `current_verdict_for_mail`: the latest ruling of a person, else the latest
other one.
SOURCE: pipeline/context.py:422-457 -/
def currentVerdictForMail (db : Database) (mailId : Uuid) : Option Bool :=
  let own := db.verdicts.filter fun v => decide (v.mailId = mailId)
  match (own.filter fun v => decide (v.source = .userFeedback)).getLast? with
  | some v => some v.isSpam
  | none =>
    ((own.filter fun v => decide (v.source ≠ .userFeedback)).getLast?).map VerdictRow.isSpam

/-- Whether the durable key has an AI verdict already.
SOURCE: pipeline/context.py:460-480 -/
def hasAiVerdict (db : Database) (accountId : Uuid) (msgKey fromAddr : String) : Bool :=
  db.verdicts.any fun v => decide (v.accountId = accountId) && decide (v.msgKey = msgKey) &&
    decide (v.source = .ai) && decide (v.fromAddr = fromAddr)

/-! ## Guarded writes -/

/-- A guarded `UPDATE messages`: the database after it and its rowcount. -/
def updateMessages (db : Database) (guard : MessageRow → Bool) (set : MessageRow → MessageRow)
    (hset : ∀ r, (set r).id = r.id) : Database × ℕ :=
  ({ db with messages := db.messages.update guard set hset },
    db.messages.rows.countP guard)

def setFolder (target : Uuid) (r : MessageRow) : MessageRow := { r with folderId := target }

def setFlags (seen flagged answered deleted : Option Bool) (r : MessageRow) : MessageRow :=
  { r with
    isSeen := seen.getD r.isSeen
    isFlagged := flagged.getD r.isFlagged
    isAnswered := answered.getD r.isAnswered
    isDeleted := deleted.getD r.isDeleted }

def setKeywords (add remove : Finset String) (r : MessageRow) : MessageRow :=
  { r with keywords := (r.keywords ∪ add) \ remove }

def setTags (add remove : Finset String) (r : MessageRow) : MessageRow :=
  { r with tags := (r.tags ∪ add) \ remove }

def setExpunged (r : MessageRow) : MessageRow := { r with expunged := true }

/-- SOURCE: postimap/actions.py:1059-1089 -/
def moveMessageGuarded (db : Database) (messageId target expectedFolderId : Uuid) :
    Database × ℕ :=
  updateMessages db
    (fun r => decide (r.id = messageId) && !r.expunged && decide (r.folderId = expectedFolderId))
    (setFolder target) fun _ => rfl

/-- SOURCE: postimap/actions.py:1092-1111 -/
def setFlagsGuarded (db : Database) (messageId : Uuid)
    (seen flagged answered deleted : Option Bool) : Database × ℕ :=
  updateMessages db (fun r => decide (r.id = messageId) && !r.expunged)
    (setFlags seen flagged answered deleted) fun _ => rfl

/-- SOURCE: postimap/actions.py:1114-1150 -/
def setKeywordsDeltaGuarded (db : Database) (messageId : Uuid) (add remove : Finset String) :
    Database × ℕ :=
  updateMessages db (fun r => decide (r.id = messageId) && !r.expunged)
    (setKeywords add remove) fun _ => rfl

/-- SOURCE: postimap/actions.py:1153-1169 -/
def expungeGuarded (db : Database) (messageId : Uuid) : Database × ℕ :=
  updateMessages db (fun r => decide (r.id = messageId) && !r.expunged)
    setExpunged fun _ => rfl

/-- `_apply_tags`, which no guard holds back.
SOURCE: pipeline/effects.py:349-364 -/
def applyTags (db : Database) (mailId : Uuid) (add remove : Finset String) : Database :=
  (updateMessages db (fun r => decide (r.id = mailId)) (setTags add remove) fun _ => rfl).1

/-- `_record_verdict`: `ON CONFLICT DO NOTHING` on the AI verdict of the key.
SOURCE: pipeline/effects.py:415-450 -/
def recordVerdict (db : Database) (view : MessageView) (isSpam : Bool) : Database × Bool :=
  if hasAiVerdict db view.accountId view.content.msgKey view.content.fromAddr then (db, false)
  else
    ({ db with verdicts := db.verdicts ++ [{
        mailId := view.messageId, accountId := view.accountId, msgKey := view.content.msgKey,
        fromAddr := view.content.fromAddr, isSpam := isSpam, source := .ai }] }, true)

/-- `_enqueue_order_mail_job`.
SOURCE: pipeline/effects.py:367-393 -/
def enqueueOrderMailJob (db : Database) (view : MessageView) : Database × Bool :=
  let job := (view.accountId, view.content.msgKey)
  if job ∈ db.orderJobs then (db, false)
  else ({ db with orderJobs := db.orderJobs ++ [job] }, true)

/-- `_enqueue_webhook_delivery`.
SOURCE: pipeline/effects.py:396-412 -/
def enqueueWebhookDelivery (db : Database) (view : MessageView) (name : String) :
    Database × Bool :=
  let delivery := (name, view.accountId, view.content.msgKey)
  if delivery ∈ db.deliveries then (db, false)
  else ({ db with deliveries := db.deliveries ++ [delivery] }, true)

/-! ## Applying effects -/

structure Applied where
  db : Database
  view : MessageView
  applied : Bool

/-- `_resolve_folder_view`, which reads the raw special use.
SOURCE: pipeline/effects.py:331-346 -/
def resolveFolderView (folders : List Folder) (folderId : Uuid) (hint : Option String) :
    FolderView :=
  match folders.find? fun f => decide (f.id = folderId) with
  | none => ⟨folderId, "(unknown)", hint⟩
  | some f => ⟨folderId, f.imapName, f.specialUse⟩

/-- `_project_flags`: the view has the seen and the flagged flag only.
SOURCE: pipeline/effects.py:313-318 -/
def projectFlags (view : MessageView) (seen flagged : Option Bool) : MessageView :=
  { view with isSeen := seen.getD view.isSeen, isFlagged := flagged.getD view.isFlagged }

def withFolder (view : MessageView) (folder : FolderView) : MessageView :=
  { view with folder := folder }

def withKeywords (view : MessageView) (add remove : Finset String) : MessageView :=
  { view with keywords := (view.keywords ∪ add) \ remove }

def withTags (view : MessageView) (add remove : Finset String) : MessageView :=
  { view with tags := (view.tags ∪ add) \ remove }

/-- The `Move` and `Trash` branches once the target is known; `dry` and `real` are
the folder the view is given.
SOURCE: pipeline/effects.py:116-136, 143-161 -/
def applyMove (apply : Bool) (db : Database) (view : MessageView) (target : Uuid)
    (dry real : FolderView) : Applied :=
  if target = view.folder.id then ⟨db, view, false⟩
  else if !apply then ⟨db, withFolder view dry, true⟩
  else
    let moved := moveMessageGuarded db view.messageId target view.folder.id
    if moved.2 ≠ 0 then ⟨moved.1, withFolder view real, true⟩ else ⟨moved.1, view, false⟩

/-- `apply_effects` on one effect.
SOURCE: pipeline/effects.py:100-310 -/
def applyEffect (W : World) (run : PipelineRun) (stageId : String) (db : Database)
    (view : MessageView) : Effect → Except StageError Applied
  | .move ref =>
    match resolve W.folders run.accountId ref with
    | none => .error (.misconfigured stageId)
    | some target =>
      .ok (applyMove run.apply db view target ⟨target, "(dry-run)", ref.specialUse⟩
        (resolveFolderView W.folders target ref.specialUse))
  | .trash =>
    match resolve W.folders run.accountId ⟨none, some "trash", none⟩ with
    | none => .error (.misconfigured stageId)
    | some target =>
      .ok (applyMove run.apply db view target ⟨target, "(dry-run)", some "trash"⟩
        ⟨target, view.folder.imapName, some "trash"⟩)
  | .expunge =>
    if !run.apply then .ok ⟨db, view, true⟩
    else
      let gone := expungeGuarded db view.messageId
      .ok ⟨gone.1, view, decide (gone.2 ≠ 0)⟩
  | .setFlags seen flagged answered deleted =>
    if seen = none ∧ flagged = none ∧ answered = none ∧ deleted = none then
      .ok ⟨db, view, false⟩
    else if !run.apply then .ok ⟨db, projectFlags view seen flagged, true⟩
    else
      let set := setFlagsGuarded db view.messageId seen flagged answered deleted
      if set.2 ≠ 0 then .ok ⟨set.1, projectFlags view seen flagged, true⟩
      else .ok ⟨set.1, view, false⟩
  | .keywords add remove =>
    if add = ∅ ∧ remove = ∅ then .ok ⟨db, view, false⟩
    else if !run.apply then .ok ⟨db, withKeywords view add remove, true⟩
    else
      let set := setKeywordsDeltaGuarded db view.messageId add remove
      if set.2 ≠ 0 then .ok ⟨set.1, withKeywords view add remove, true⟩
      else .ok ⟨set.1, view, false⟩
  | .tag add remove =>
    if !run.apply then .ok ⟨db, withTags view add remove, true⟩
    else .ok ⟨applyTags db view.messageId add remove, withTags view add remove, true⟩
  | .recordVerdict isSpam _ _ =>
    if !run.apply then .ok ⟨db, view, true⟩
    else
      let recorded := recordVerdict db view isSpam
      .ok ⟨recorded.1, view, recorded.2⟩
  | .notify _ => .ok ⟨db, view, true⟩
  | .enqueueOrder _ =>
    if !run.apply then .ok ⟨db, view, true⟩
    else
      let queued := enqueueOrderMailJob db view
      .ok ⟨queued.1, view, queued.2⟩
  | .webhook name _ =>
    if !run.apply then .ok ⟨db, view, true⟩
    else
      let queued := enqueueWebhookDelivery db view name
      .ok ⟨queued.1, view, queued.2⟩

/-- An entry of the trace's `applied` list, with the database its transaction
left. -/
structure AppliedEffect where
  effect : Effect
  applied : Bool
  db : Database

/-- What a stage's effects came to, up to the one that raised if one did. -/
structure EffectsResult where
  db : Database
  view : MessageView
  applied : List AppliedEffect
  error : Option StageError

/-- `apply_effects`.
SOURCE: pipeline/effects.py:67-310 -/
def applyEffects (W : World) (run : PipelineRun) (stageId : String) :
    Database → MessageView → List Effect → EffectsResult
  | db, view, [] => ⟨db, view, [], none⟩
  | db, view, e :: es =>
    match applyEffect W run stageId db view e with
    | .error x => ⟨db, view, [], some x⟩
    | .ok a =>
      let rest := applyEffects W run stageId a.db a.view es
      { rest with applied := ⟨e, a.applied, a.db⟩ :: rest.applied }

/-! ## Running the stages -/

/-- What the runner holds between two stages: the database as it is, the projected
view, the current verdict and the history the run loaded. -/
structure Worker where
  db : Database
  view : MessageView
  verdict : Option Bool
  hasAiVerdict : Bool

/-- `execute` of the three stages.
SOURCE: pipeline/stages/match.py:48-56, classify.py:167-209, orders.py:53-87 -/
def execute (W : World) (run : PipelineRun) (w : Worker) :
    StageConfig → Except StageError StageOutcome
  | .match when effects =>
    match matchesMessage W when w.view w.verdict with
    | .error x => .error x
    | .ok false => .ok .unmatched
    | .ok true => .ok ⟨true, effects, false⟩
  | .classify =>
    if !W.spamEnabled run.accountId then .ok .unmatched
    else if w.hasAiVerdict then .ok .unmatched
    else
      match W.classify w.view.content with
      | .error x => .error x
      | .ok (isSpam, reasoning, model) =>
        .ok ⟨true, [.recordVerdict isSpam reasoning model], false⟩
  | .orders =>
    if !W.ordersEnabled run.accountId then .ok .unmatched
    else if w.verdict = some true then .ok .unmatched
    else
      match W.ordersReason w.view.content with
      | none => .ok .unmatched
      | some reason => .ok ⟨true, [.enqueueOrder reason], false⟩

/-- A stage's turn in the loop: `none` where the loop passes it over, for its
switch, its origins or its accounts.
SOURCE: pipeline/runner.py:330-345 -/
def stageTurn (W : World) (run : PipelineRun) (w : Worker) (stage : StageDefinition) :
    Except StageError (Option StageOutcome) :=
  if !stage.enabled then .ok none
  else if !stage.config.runsOn run.origin then .ok none
  else
    match stage.accounts with
    | some accounts =>
      if run.accountId ∈ accounts then (execute W run w stage.config).map some else .ok none
    | none => (execute W run w stage.config).map some

/-- `(stage_def.halt and outcome.matched) or outcome.halt`. -/
def halts (stage : StageDefinition) (outcome : StageOutcome) : Bool :=
  (stage.halt && outcome.matched) || outcome.halt

/-- `_project_verdict`: the first recorded verdict of the stage.
SOURCE: pipeline/runner.py:473-486 -/
def projectVerdict (verdict : Option Bool) : List AppliedEffect → Option Bool
  | [] => verdict
  | a :: as =>
    match a.applied, a.effect with
    | true, .recordVerdict isSpam _ _ => some isSpam
    | _, _ => projectVerdict verdict as

/-- The worker after a stage whose effects were applied. -/
def Worker.next (w : Worker) (r : EffectsResult) : Worker where
  db := r.db
  view := r.view
  verdict := projectVerdict w.verdict r.applied
  hasAiVerdict := w.hasAiVerdict

/-- SOURCE: pipeline/runner.py:489-515 -/
structure TraceEntry where
  stageId : String
  matched : Bool
  halt : Bool
  effects : List Effect
  applied : List AppliedEffect

inductive Exit
  | skipped (reason : String)
  | done (haltedAt : Option String)
  | raised (error : StageError)
deriving DecidableEq

/-- A run so far: its trace, the database as it leaves it and how it ended. -/
structure RunResult where
  trace : List TraceEntry
  db : Database
  exit : Exit

/-- The effects of the run in the order their transactions committed. -/
def RunResult.applied (r : RunResult) : List AppliedEffect :=
  r.trace.flatMap TraceEntry.applied

/-- The loop of `_execute_run`. A stage passed over has its entry in the trace
when it is enabled; a stage that raised has the effects before the one that did.
SOURCE: pipeline/runner.py:330-377 -/
def runStages (W : World) (run : PipelineRun) : List StageDefinition → Worker → RunResult
  | [], w => ⟨[], w.db, .done none⟩
  | stage :: rest, w =>
    match stageTurn W run w stage with
    | .error x => ⟨[], w.db, .raised x⟩
    | .ok none =>
      let log := runStages W run rest w
      if stage.enabled then
        { log with trace := ⟨stage.stageId, false, false, [], []⟩ :: log.trace }
      else log
    | .ok (some outcome) =>
      let r := applyEffects W run stage.stageId w.db w.view outcome.effects
      let entry : TraceEntry :=
        ⟨stage.stageId, outcome.matched, halts stage outcome, outcome.effects, r.applied⟩
      match r.error with
      | some x => ⟨[entry], r.db, .raised x⟩
      | none =>
        if halts stage outcome then ⟨[entry], r.db, .done (some stage.stageId)⟩
        else
          let log := runStages W run rest (w.next r)
          { log with trace := entry :: log.trace }

/-- SOURCE: pipeline/runner.py:84-87 -/
def skipFolderSpecialUse : List String := ["sent", "drafts", "trash", "junk", "archive"]

/-- `view.is_draft or (view.folder.special_use or "") in _SKIP_FOLDER_SPECIAL_USE`. -/
def outOfScope (view : MessageView) : Bool :=
  view.isDraft || decide (view.folder.specialUse.getD "" ∈ skipFolderSpecialUse)

/-- The worker a run starts its first stage with. -/
def startWorker (db : Database) (view : MessageView) (accountId : Uuid) : Worker where
  db := db
  view := view
  verdict := currentVerdictForMail db view.messageId
  hasAiVerdict := hasAiVerdict db accountId view.content.msgKey view.content.fromAddr

/-- `_execute_run`.
SOURCE: pipeline/runner.py:284-383 -/
def executeRun (W : World) (definition : PipelineDefinition) (run : PipelineRun) (db : Database) :
    RunResult :=
  if !definition.enabled then ⟨[], db, .skipped "pipeline disabled"⟩
  else
    match loadView W db run with
    | none => ⟨[], db, .skipped "message gone"⟩
    | some view =>
      if outOfScope view then ⟨[], db, .skipped "out of scope (folder or draft)"⟩
      else runStages W run definition.stages (startWorker db view run.accountId)

end MailVerdict.Model.Pipeline

/-!
# Dry runs of the pipeline

`POST /api/pipeline/test` executes the current definition against a message with `apply` false
and no message key. What it reports is what a run writes into its row: for each stage its
`matched` and `halt`, each effect with whether it applied, and where the run ended. A run that
raises has no trace: the endpoint reports the failure alone, and a queued run is retried or
failed.
-/

namespace MailVerdict.Model.Pipeline

/-- A stage's entry, as far as it says what the stage did. -/
structure StageReport where
  stageId : String
  matched : Bool
  halt : Bool
  effects : List (Effect × Bool)
deriving DecidableEq

inductive Report
  | failed (error : StageError)
  | recorded (exit : Exit) (stages : List StageReport)
deriving DecidableEq

/-- SOURCE: pipeline/runner.py:489-515 -/
def TraceEntry.report (e : TraceEntry) : StageReport :=
  ⟨e.stageId, e.matched, e.halt, e.applied.map fun a => (a.effect, a.applied)⟩

/-- SOURCE: pipeline/runner.py:450-471, api/pipeline.py:420-434 -/
def RunResult.report (r : RunResult) : Report :=
  match r.exit with
  | .raised x => .failed x
  | .skipped reason => .recorded (.skipped reason) (r.trace.map TraceEntry.report)
  | .done haltedAt => .recorded (.done haltedAt) (r.trace.map TraceEntry.report)

/-- The row `dry_run` makes up.
SOURCE: pipeline/runner.py:160-163 -/
def dryRow (accountId messageId : Uuid) (origin : Origin) : PipelineRun :=
  ⟨accountId, some messageId, "", origin, false⟩

/-- A claimed row of the message, which applies its effects. -/
def liveRow (accountId messageId : Uuid) (msgKey : String) (origin : Origin) : PipelineRun :=
  ⟨accountId, some messageId, msgKey, origin, true⟩

/-- SOURCE: pipeline/runner.py:137-164 -/
def dryRun (W : World) (definition : PipelineDefinition) (db : Database)
    (accountId messageId : Uuid) (origin : Origin) : RunResult :=
  executeRun W definition (dryRow accountId messageId origin) db

end MailVerdict.Model.Pipeline
