import MailVerdict.Model.Glacier

/-!
# The writers of one glacier row

`start_restore`, `confirm_restores`, `fail_stale_restores`, `confirm_or_withdraw_removing`,
`reresolve_origins` and the API's permanent delete each read a glacier row and later write it, in
one transaction under READ COMMITTED. The read takes no lock and the write is by the row's id
alone, so what a transaction writes is decided on the row as it was when it read it. A batch is
one such transaction for each of its rows; what it does to one row is neither read nor written
for another.

`Model.Glacier` has these operations as single steps. Here a step is one statement: a read, after
which the transaction holds what it decided (`Held`), or its write, which takes effect with the
commit. PostIMAP's tables change in any way between two steps (`postimap`).

`episode` numbers the times the row came to be `restoring`; an append has the number it was
inserted under. `deleted` and `repointed` record that the row was permanently deleted, and that
tags were moved to a live row after it; `deletedOrigin` is the live id the row had then. No
statement reads these four.
-/

namespace MailVerdict.Model.GlacierWriters

open MailVerdict.Computation
open Model.Glacier (Time Uuid Bytes Platform Message OutboxStatus SyncNotification
  sqlEq olderThan)

variable {P : Platform}

abbrev SessionId := ℕ

/-- The values of the `state` column.
SOURCE: database/models.py:918-921; glacier/rows.py:151-178 -/
inductive RowState
  | copied
  | verified
  | removing
  | glaciered
  | restoring
  | restored
  | expunged
deriving DecidableEq

/-- The columns of a `glacier_messages` row these transactions read or write. -/
structure Row where
  accountId : Uuid
  messageId : Option String
  sizeBytes : Option ℕ
  receivedAt : Option Time
  rawSource : Option Bytes
  originMessageId : Option Uuid
  state : RowState
  visibleAt : Option Time
  expungeRequestedAt : Option Time
  glacieredAt : Option Time
  restoredAt : Option Time
  restoreOutboxId : Option Uuid
  restoreStartedAt : Option Time
  lastError : Option String

/-- An `outbox` append of this row's bytes, with the episode it was inserted under. -/
structure Append where
  id : Uuid
  rawSource : Bytes
  targetFolderId : Uuid
  internalDate : Time
  status : OutboxStatus
  episode : ℕ

/-- The `mail_id` the mail's tags and verdicts are under. -/
inductive MailId
  | glacier
  | live (id : Uuid)
deriving DecidableEq

/-- What a transaction has decided and not yet written. -/
inductive Held
  | starting (rawSource : Bytes) (targetFolderId : Uuid) (internalDate : Time)
  | confirming (liveId : Uuid)
  | failing (reason : String)
  | judging (origin : Option Uuid) (requestedAt : Option Time) (accountId : Uuid)
  | confirmingRemoval
  | withdrawing (origin : Option Uuid)
  | resolving (row : Row)
  | repointing (found : Uuid)
  | finalising (oldOrigin : Option Uuid)
  | deleting

structure State where
  now : Time
  nextId : Uuid
  row : Option Row
  tags : MailId
  appends : List Append
  messages : List Message
  notifications : List SyncNotification
  held : SessionId → Option Held
  episode : ℕ
  deleted : Bool
  deletedOrigin : Option Uuid
  repointed : Bool

/-! ## The updates -/

/-- SOURCE: glacier/restore.py:150-155 -/
def Row.restoring (r : Row) (outboxId : Uuid) (now : Time) : Row :=
  { r with state := .restoring, restoreOutboxId := some outboxId, restoreStartedAt := some now }

/-- SOURCE: glacier/restore.py:262-272 -/
def Row.restored (r : Row) (now : Time) : Row :=
  { r with state := .restored, restoredAt := some now, visibleAt := none, rawSource := none }

/-- SOURCE: glacier/restore.py:331-337 -/
def Row.failed (r : Row) (reason : String) : Row :=
  { r with state := .glaciered, lastError := some reason }

/-- SOURCE: glacier/operations.py:622-627 -/
def Row.glaciered (r : Row) (now : Time) : Row :=
  { r with state := .glaciered, glacieredAt := some now }

/-- SOURCE: glacier/operations.py:766-771 -/
def Row.finalised (r : Row) (now : Time) : Row :=
  { r with state := .glaciered, glacieredAt := some now, originMessageId := none }

/-- SOURCE: api/mails.py:1784-1790 -/
def Row.expunged (r : Row) : Row :=
  { r with state := .expunged, visibleAt := none, rawSource := none }

/-- SOURCE: glacier/operations.py:479-491 -/
def Row.removing (r : Row) (now : Time) : Row :=
  { r with state := .removing, expungeRequestedAt := some now, visibleAt := some now }

/-- `UPDATE mail_tags SET mail_id = :new WHERE mail_id = :old`, and the same of `verdicts`. -/
def MailId.move (old new at_ : MailId) : MailId := if at_ = old then new else at_

/-! ## The reads -/

/-- The message a restore is confirmed by.
SOURCE: glacier/restore.py:225-246 -/
def confirms (P : Platform) (r : Row) (a : Append) (m : Message) : Bool :=
  decide (r.state = .restoring) && decide (r.restoreOutboxId = some a.id) &&
    decide (a.status = .sent) && decide (m.accountId = r.accountId) &&
    decide (m.folderId = a.targetFolderId) && m.live && m.imapUid.isSome &&
    sqlEq (m.rawSource.map P.sha256) (r.rawSource.map P.sha256)

/-- `o.status = 'dead'`, over a left join. -/
def appendDead (appends : List Append) (r : Row) : Bool :=
  appends.any fun a => decide (r.restoreOutboxId = some a.id) && decide (a.status = .dead)

/-- SOURCE: glacier/restore.py:309-330 -/
def stale (s : State) (r : Row) (timeoutSeconds : ℕ) : Bool :=
  decide (r.state = .restoring) && decide (r.restoredAt = none) &&
    (appendDead s.appends r || olderThan r.restoreStartedAt timeoutSeconds s.now)

/-- The newest failed delete of a message since a moment; rows are in `created_at` order.
SOURCE: glacier/operations.py:599-615 -/
def failureOf (notifications : List SyncNotification) (accountId : Uuid)
    (origin : Option Uuid) (requestedAt : Option Time) : Option SyncNotification :=
  match origin, requestedAt with
  | some originId, some since =>
    (notifications.filter fun n => decide (n.accountId = accountId) &&
      decide (n.messageId = originId) && decide (since < n.createdAt)).getLast?
  | _, _ => none

def findMessage (messages : List Message) (id : Option Uuid) : Option Message :=
  id.bind fun id => messages.find? fun m => decide (m.id = id)

/-- SOURCE: glacier/operations.py:637-657 -/
def liveIntact (messages : List Message) (origin : Option Uuid) : Bool :=
  (findMessage messages origin).any fun m => m.live && m.imapUid.isSome

/-- Whether a read of this id is answered as a destroyed message, not from the mirror's old row.
SOURCE: glacier/rows.py:151-178 -/
def wasPermanentlyExpunged (row : Option Row) : MailId → Bool
  | .glacier => row.any fun r => decide (r.state = .expunged)
  | .live id =>
    row.any fun r => decide (r.state = .expunged) && decide (r.originMessageId = some id)

/-- A live row with the copy's account, header, size and date.
SOURCE: glacier/operations.py:739-757 -/
def lookAlike (r : Row) (m : Message) : Bool :=
  m.live && m.identityMatches r.accountId r.messageId r.sizeBytes r.receivedAt

inductive Label
  | tick (elapsed : ℕ)
  | postimap (messages : List Message) (notifications : List SyncNotification)
  | progress (outboxId : Uuid) (status : OutboxStatus)
  | expungeMessage
  | readGlaciered (k : SessionId) (targetFolderId : Uuid)
  | readLanded (k : SessionId) (liveId : Uuid)
  | readStale (k : SessionId) (timeoutSeconds : ℕ)
  | readRemoving (k : SessionId) (graceSeconds : ℕ)
  | judge (k : SessionId)
  | readVerified (k : SessionId)
  | lookUp (k : SessionId) (found : Option Uuid)
  | readVisible (k : SessionId)
  | write (k : SessionId)
  | rollback (k : SessionId)

def State.hold (s : State) (k : SessionId) (h : Option Held) : State :=
  { s with held := Function.update s.held k h }

/-- The number of the restore an append inserted now belongs to. -/
def State.nextEpisode (s : State) : ℕ :=
  if s.row.any fun r => decide (r.state = .restoring) then s.episode else s.episode + 1

/-- `start_restore`'s two writes.
SOURCE: glacier/restore.py:144-160 -/
def writeRestoring (s : State) (rawSource : Bytes) (targetFolderId : Uuid)
    (internalDate : Time) : State :=
  { s with
    nextId := s.nextId + 1
    appends := s.appends ++
      [⟨s.nextId, rawSource, targetFolderId, internalDate, .pending, s.nextEpisode⟩]
    episode := s.nextEpisode
    row := s.row.map fun r => r.restoring s.nextId s.now }

/-- The mail's tags and verdicts go to a live row. -/
def pointToLive (s : State) (id : Uuid) : State :=
  { s with
    tags := MailId.move .glacier (.live id) s.tags
    repointed := s.repointed || (s.deleted && decide (s.tags = .glacier)) }

/-- What a transaction writes.
SOURCE: glacier/restore.py:144-160, 250-274, 331-337; glacier/operations.py:622-685, 758-783;
api/mails.py:1766-1790 -/
def write (s : State) : Held → State
  | .starting rawSource targetFolderId internalDate =>
    writeRestoring s rawSource targetFolderId internalDate
  | .confirming liveId =>
    { pointToLive s liveId with row := s.row.map fun r => r.restored s.now }
  | .failing reason => { s with row := s.row.map fun r => r.failed reason }
  | .confirmingRemoval => { s with row := s.row.map fun r => r.glaciered s.now }
  | .withdrawing origin =>
    match origin with
    | some id => { pointToLive s id with row := none }
    | none => { s with row := none }
  | .repointing found =>
    { s with row := s.row.map fun r => { r with originMessageId := some found } }
  | .finalising oldOrigin =>
    { s with
      row := s.row.map fun r => r.finalised s.now
      tags := match oldOrigin with
        | some id => MailId.move (.live id) .glacier s.tags
        | none => s.tags }
  | .deleting =>
    { s with
      row := s.row.map Row.expunged
      deleted := s.deleted || s.row.isSome
      deletedOrigin := if s.deleted then s.deletedOrigin else s.row.bind Row.originMessageId }
  | .judging _ _ _ | .resolving _ => s

/-- One statement, or one step of PostIMAP.
SOURCE: glacier/restore.py:79-344; glacier/operations.py:457-783; api/mails.py:1686-1793 -/
def step (P : Platform) (s : State) : Label → Option State
  | .tick elapsed => some { s with now := s.now + elapsed }
  | .postimap messages notifications =>
    some { s with messages := messages, notifications := notifications }
  | .progress outboxId status =>
    some { s with
      appends := s.appends.map fun a =>
        if a.id = outboxId ∧ a.status = .pending then { a with status := status } else a }
  | .expungeMessage =>
    match s.row with
    | some r =>
      match r.state, r.originMessageId with
      | .verified, some origin =>
        if (findMessage s.messages (some origin)).any (lookAlike r) then
          some { s with
            row := some (r.removing s.now)
            tags := MailId.move (.live origin) .glacier s.tags }
        else none
      | _, _ => none
    | none => none
  | .readGlaciered k targetFolderId =>
    match s.held k, s.row with
    | none, some r =>
      match r.state, r.rawSource with
      | .glaciered, some raw =>
        some (s.hold k (some (.starting raw targetFolderId (r.receivedAt.getD s.now))))
      | _, _ => none
    | _, _ => none
  | .readLanded k liveId =>
    match s.held k, s.row with
    | none, some r =>
      if s.appends.any fun a =>
          s.messages.any fun m => decide (m.id = liveId) && confirms P r a m then
        some (s.hold k (some (.confirming liveId)))
      else none
    | _, _ => none
  | .readStale k timeoutSeconds =>
    match s.held k, s.row with
    | none, some r =>
      if stale s r timeoutSeconds then
        some (s.hold k (some (.failing
          (if appendDead s.appends r then "the restore's outbox entry failed permanently"
            else "the restore did not complete within the timeout"))))
      else none
    | _, _ => none
  | .readRemoving k graceSeconds =>
    match s.held k, s.row with
    | none, some r =>
      if r.state = .removing ∧ olderThan r.expungeRequestedAt graceSeconds s.now = true then
        some (s.hold k (some (.judging r.originMessageId r.expungeRequestedAt r.accountId)))
      else none
    | _, _ => none
  | .judge k =>
    match s.held k with
    | some (.judging origin requestedAt accountId) =>
      match failureOf s.notifications accountId origin requestedAt with
      | none => some (s.hold k (some .confirmingRemoval))
      | some failure =>
        if failure.revertedAt.isSome ∧ liveIntact s.messages origin = true then
          some (s.hold k (some (.withdrawing origin)))
        else some (s.hold k none)
    | _ => none
  | .readVerified k =>
    match s.held k, s.row with
    | none, some r =>
      if r.state = .verified ∧
          (findMessage s.messages r.originMessageId).any Message.live = false then
        some (s.hold k (some (.resolving r)))
      else none
    | _, _ => none
  | .lookUp k found =>
    match s.held k with
    | some (.resolving r) =>
      match found with
      | some mid =>
        if (findMessage s.messages (some mid)).any (lookAlike r) then
          some (s.hold k (some (.repointing mid)))
        else none
      | none =>
        if s.messages.any (lookAlike r) then none
        else some (s.hold k (some (.finalising r.originMessageId)))
    | _ => none
  | .readVisible k =>
    match s.held k, s.row with
    | none, some r =>
      if r.visibleAt.isSome then some (s.hold k (some .deleting)) else none
    | _, _ => none
  | .write k =>
    (s.held k).map fun h => (write s h).hold k none
  | .rollback k => some (s.hold k none)

/-- A row that is neither being restored nor deleted, and restored only as a finished restore
leaves it; no transaction under way. -/
structure Fresh (s : State) : Prop where
  row : ∀ r ∈ s.row, r.state ≠ .restoring ∧ r.state ≠ .expunged ∧
    (r.restoredAt.isSome = true → r.state = .restored)
  appends : s.appends = []
  held : ∀ k, s.held k = none
  deleted : s.deleted = false
  repointed : s.repointed = false

def system (P : Platform) : TransitionSystem State Label where
  init := Fresh
  step := step P

end MailVerdict.Model.GlacierWriters
