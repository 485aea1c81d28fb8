import MailVerdict.Model.Glacier
import Mathlib.Data.Int.Order.Basic
import Mathlib.Data.List.Dedup

/-!
# Embedding coverage

`message_embeddings` holds one row for each account, durable key and model; the row's
`message_id` is only a join hint, and may be dead. `status` reports, for one model and one
account or all of them, how many messages are in scope, how many rows there are in each
state, how many of them a search can reach, and how many messages a sibling's row shadows;
`outstanding` and `cutover_readiness` are computed from those counts.

The rows of the mirror and of the glacier are those of `Model.Glacier`. A folder's two
columns, and of an embedding row the identity, the hint and the state, are all that is
read here.

SOURCE: embeddings/repository.py:59-186, 595-752, 819-850
-/

namespace MailVerdict.Model.EmbeddingCoverage

open MailVerdict.Computation
open Model.Glacier (Uuid Time Platform Message GlacierMessage sqlEq)

/-- `ck_message_embeddings_status` -/
inductive RowStatus
  | pending
  | claimed
  | done
  | failed
deriving DecidableEq

structure MessageEmbedding where
  accountId : Uuid
  msgKey : String
  messageId : Option Uuid
  model : String
  status : RowStatus

/-- `uq_message_embeddings_account_msgkey_model` -/
def MessageEmbedding.key (e : MessageEmbedding) : Uuid × String × String :=
  (e.accountId, e.msgKey, e.model)

structure Folder where
  id : Uuid
  deletedAt : Option Time
  initialSyncDone : Bool

structure Database (P : Platform) where
  folders : KeyedTable Folder.id
  messages : KeyedTable Message.id
  glacierMessages : KeyedTable (GlacierMessage.id (P := P))
  embeddings : KeyedTable MessageEmbedding.key

structure EmbeddingStatus where
  model : String
  inScope : ℕ
  encoded : ℕ
  pending : ℕ
  failed : ℕ
  reachable : ℕ
  unreachable : ℤ
  shadowed : ℕ

/-- SOURCE: embeddings/repository.py:97-107 -/
def EmbeddingStatus.outstanding (s : EmbeddingStatus) : ℤ :=
  max ((s.inScope : ℤ) - s.encoded - s.pending - s.failed - s.shadowed) 0

structure CutoverReadiness where
  ready : Bool
  target : EmbeddingStatus
  active : EmbeddingStatus
  blockedReason : Option String

/-- `WHERE account_id = …`, left out for every account. -/
def onAccount (accountId : Option Uuid) (a : Uuid) : Bool :=
  match accountId with
  | some b => decide (a = b)
  | none => true

namespace Database

variable {P : Platform} (db : Database P)

def scope (accountId : Option Uuid) : List Message :=
  db.messages.rows.filter fun m =>
    m.live &&
      (match db.folders.find? m.folderId with
        | some f => f.deletedAt.isNone && f.initialSyncDone
        | none => false) &&
      onAccount accountId m.accountId

def glacierScope (accountId : Option Uuid) : List (GlacierMessage P) :=
  db.glacierMessages.rows.filter fun g => g.visibleAt.isSome && onAccount accountId g.accountId

/-- The rows `status` counts. -/
def counted (model : String) (accountId : Option Uuid) : List MessageEmbedding :=
  db.embeddings.rows.filter fun e => decide (e.model = model) && onAccount accountId e.accountId

/-- SOURCE: embeddings/repository.py:141-150 -/
def liveMessageIds (messageIds : List Uuid) : List Uuid :=
  (db.messages.rows.filter fun m => decide (m.id ∈ messageIds) && m.live).map Message.id

/-- SOURCE: embeddings/repository.py:153-186 -/
def siblingHoldsEmbedding (model : String) (m : Message) : Bool :=
  db.embeddings.rows.any fun e =>
    db.messages.rows.any fun sibling =>
      decide (e.messageId = some sibling.id) && decide (e.accountId = m.accountId) &&
        decide (e.model = model) && decide (sibling.accountId = m.accountId) &&
        sqlEq sibling.messageId m.messageId && decide (sibling.id ≠ m.id) && sibling.live

def ownEmbeddingExists (model : String) (m : Message) : Bool :=
  db.embeddings.rows.any fun e =>
    decide (e.accountId = m.accountId) && decide (e.messageId = some m.id) &&
      decide (e.model = model)

/-- An in-scope, headered message with no embedding of its own, whose header a live
sibling that holds one shares. -/
def isShadowed (model : String) (m : Message) : Bool :=
  m.messageId.isSome && !db.ownEmbeddingExists model m && db.siblingHoldsEmbedding model m

/-- Done rows whose hint is a live message, and glacier keys that done rows without a hint
answer for. -/
def reachable (model : String) (accountId : Option Uuid) : ℕ :=
  let done := (db.counted model accountId).filter fun e => decide (e.status = .done)
  let nullHintKeys := (done.filter fun e => e.messageId.isNone).map fun e =>
    (e.accountId, e.msgKey)
  (db.liveMessageIds (done.filterMap MessageEmbedding.messageId)).length +
    (((db.glacierMessages.rows.filter fun g => g.visibleAt.isSome).map fun g =>
        (g.accountId, g.msgKey)).filter fun k => decide (k ∈ nullHintKeys)).dedup.length

/-- SOURCE: embeddings/repository.py:595-752 -/
def status (model : String) (accountId : Option Uuid) : EmbeddingStatus :=
  let counts := db.counted model accountId
  let encoded := counts.countP fun e => decide (e.status = .done)
  { model := model
    inScope := (db.scope accountId).length + (db.glacierScope accountId).length
    encoded := encoded
    pending := counts.countP fun e => decide (e.status = .pending ∨ e.status = .claimed)
    failed := counts.countP fun e => decide (e.status = .failed)
    reachable := db.reachable model accountId
    unreachable := (encoded : ℤ) - db.reachable model accountId
    shadowed := (db.scope accountId).countP (db.isShadowed model) }

/-- SOURCE: embeddings/repository.py:819-850 -/
def cutoverReadiness (targetModel activeModel : String) : CutoverReadiness :=
  let target := db.status targetModel none
  let active := db.status activeModel none
  if target.outstanding > 0 then
    { ready := false
      target := target
      active := active
      blockedReason := some
        (toString target.outstanding ++ " message(s) not yet tried under the target model") }
  else if target.reachable < active.reachable then
    { ready := false
      target := target
      active := active
      blockedReason := some
        ("target model reaches " ++ toString target.reachable ++ " message(s), fewer than the " ++
          toString active.reachable ++ " the active model already reaches") }
  else { ready := true, target := target, active := active, blockedReason := none }

end Database

end MailVerdict.Model.EmbeddingCoverage
