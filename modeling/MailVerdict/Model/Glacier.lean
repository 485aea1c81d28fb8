import MailVerdict.Computation.KeyedTable
import MailVerdict.Computation.TransitionSystem

/-!
# The glacier

A message is copied into `glacier_messages`, the copy is verified, and the live
message is expunged from the mail server; a restore appends the stored bytes back
and drops them from the glacier once the server's copy is seen. Each operation of
`glacier/operations.py` and `glacier/restore.py` is one transaction on four
tables: the mirror's `messages`, `glacier_messages`, `outbox` and
`sync_notifications`.

A sweep over several rows is a sequence of steps, one for each row, since what
it does to one row is neither read nor written for another; the `LIMIT` and the
order of the rows are the label's choice, and so is the row a `LIMIT 1` query or
a `DISTINCT ON` keeps. A `messages` row stands for a copy on the server: it goes
when an expunge lands, not when it is asked for (`expunged_at`). Ids are never
reused.

A duplicate that `copy_message` reports is kept in `pendingDuplicates` until its
caller's `resolve_duplicate` runs. `held` records the bytes any glacier row ever
held; no code reads it.
-/

namespace MailVerdict.Model.Glacier

open MailVerdict.Computation

abbrev Time := ℕ

abbrev Uuid := ℕ

abbrev Bytes := List UInt8

/-- What Postgres and Python compute outside the repository: the byte digest, the
hex digest of a text's UTF-8 encoding, and a timestamp's ISO form. -/
structure Platform where
  Digest : Type
  decEq : DecidableEq Digest
  sha256 : Bytes → Digest
  hexdigest : String → String
  isoformat : Time → String

instance (P : Platform) : DecidableEq P.Digest := P.decEq

def sqlEq {α : Type} [DecidableEq α] : Option α → Option α → Bool
  | some a, some b => decide (a = b)
  | _, _ => false

theorem sqlEq_iff {α : Type} [DecidableEq α] {a b : Option α} :
    sqlEq a b = true ↔ ∃ x, a = some x ∧ b = some x := by
  cases a <;> cases b <;> simp [sqlEq, eq_comm]

/-! ## Rows -/

structure Attachment where
  id : Uuid
  data : Option Bytes
deriving DecidableEq

structure Message where
  id : Uuid
  accountId : Uuid
  folderId : Uuid
  messageId : Option String
  fromAddr : Option String
  subject : Option String
  receivedAt : Option Time
  sizeBytes : Option ℕ
  imapUid : Option ℕ
  rawSource : Option Bytes
  isTruncated : Bool
  isDraft : Bool
  attachments : List Attachment
  expungedAt : Option Time
deriving DecidableEq

inductive GlacierState
  | copied
  | verified
  | removing
  | glaciered
  | restoring
  | restored
deriving DecidableEq

structure GlacierAttachment where
  sourceAttachmentId : Uuid
  data : Option Bytes

structure GlacierMessage (P : Platform) where
  id : Uuid
  accountId : Uuid
  folderId : Uuid
  msgKey : String
  messageId : Option String
  receivedAt : Option Time
  sizeBytes : Option ℕ
  rawSource : Option Bytes
  contentSha256 : Option P.Digest
  attachments : List GlacierAttachment
  attachmentCount : ℕ
  originMessageId : Option Uuid
  state : GlacierState
  visibleAt : Option Time
  expungeRequestedAt : Option Time
  glacieredAt : Option Time
  restoredAt : Option Time
  restoreOutboxId : Option Uuid
  restoreStartedAt : Option Time
  lastError : Option String

inductive OutboxStatus
  | pending
  | sent
  | dead
deriving DecidableEq

structure OutboxRow where
  id : Uuid
  accountId : Uuid
  rawSource : Option Bytes
  targetFolderId : Uuid
  internalDate : Time
  status : OutboxStatus

/-- A `sync_notifications` row with action `delete`. -/
structure SyncNotification where
  accountId : Uuid
  messageId : Uuid
  createdAt : Time
  revertedAt : Option Time

structure PostimapInfo where
  serviceVersion : String
  supportsMessageAppend : Bool

/-- The folder, account and deployment facts the operations read. -/
structure Config where
  initialSyncDone : Uuid → Bool
  folderDeleted : Uuid → Bool
  isActive : Uuid → Bool
  glacierFolderId : Uuid → Option Uuid
  postimapInfo : Option PostimapInfo
  confirmGraceSeconds : ℕ

structure State (P : Platform) where
  now : Time
  nextId : Uuid
  config : Config
  messages : KeyedTable Message.id
  glacier : KeyedTable (GlacierMessage.id (P := P))
  outbox : KeyedTable OutboxRow.id
  notifications : List SyncNotification
  pendingDuplicates : List (Uuid × Uuid)
  held : List Bytes

variable {P : Platform}

/-- `t < now() - make_interval(secs => seconds)`. -/
def olderThan (t : Option Time) (seconds : ℕ) (now : Time) : Bool :=
  match t with
  | some t => decide (t + seconds < now)
  | none => false

/-! ## Identity -/

/-- SOURCE: database/msg_key.py:32-75 -/
def computeMsgKey (P : Platform) (accountId : Uuid) (messageIdHdr fromAddr subject : Option String)
    (receivedAt : Option Time) (sizeBytes : Option ℕ) : String :=
  let header := messageIdHdr.getD ""
  if header ≠ "" then header
  else
    let parts := [toString accountId, fromAddr.getD "", subject.getD "",
      (receivedAt.map P.isoformat).getD "", (sizeBytes.map toString).getD ""]
    "sha256:" ++ P.hexdigest ("\x1f".intercalate parts)

def Message.msgKey (P : Platform) (m : Message) : String :=
  computeMsgKey P m.accountId m.messageId m.fromAddr m.subject m.receivedAt m.sizeBytes

/-- Account, Message-ID header, size and date agree. -/
def Message.identityMatches (m : Message) (accountId : Uuid) (messageIdHdr : Option String)
    (sizeBytes : Option ℕ) (receivedAt : Option Time) : Bool :=
  decide (m.accountId = accountId) && decide (m.messageId.getD "" = messageIdHdr.getD "") &&
    decide (m.sizeBytes = sizeBytes) && decide (m.receivedAt = receivedAt)

/-- The live message the shallow identity of a glacier row admits. -/
def GlacierMessage.admits (g : GlacierMessage P) (m : Message) : Bool :=
  m.identityMatches g.accountId g.messageId g.sizeBytes g.receivedAt

def Message.live (m : Message) : Bool := decide (m.expungedAt = none)

/-- Set `expunged_at` on the live row that still has the given identity; the row
count is 1 or 0.
SOURCE: postimap/actions.py:1172-1229 -/
def expungeIfMatches (s : State P) (messageId : Uuid) (g : GlacierMessage P) : State P × ℕ :=
  match s.messages.find? messageId with
  | none => (s, 0)
  | some m =>
    if m.live && g.admits m then
      ({ s with
        messages := s.messages.update (fun r => decide (r.id = messageId))
          (fun r => { r with expungedAt := some s.now }) (fun _ => rfl) }, 1)
    else (s, 0)

/-! ## Copy, verify, expunge -/

def eligible (c : Config) (m : Message) : Bool :=
  m.live && !m.isTruncated && m.rawSource.isSome && m.imapUid.isSome && !m.isDraft &&
    c.initialSyncDone m.folderId && !c.folderDeleted m.folderId && c.isActive m.accountId

/-- SOURCE: glacier/operations.py:111-160 -/
def eligibilityReason (c : Config) : Option Message → Option String
  | none => some "message not found"
  | some m =>
    if !m.live then some "message already expunged"
    else if m.isTruncated || !m.rawSource.isSome then some "message body was never fully fetched"
    else if !m.imapUid.isSome then some "a move on this message is still pending"
    else if m.isDraft then some "drafts cannot be glaciered"
    else if !c.initialSyncDone m.folderId || c.folderDeleted m.folderId then
      some "this folder has not finished its first sync"
    else if !c.isActive m.accountId then some "the account is disabled"
    else none

inductive CopyStatus
  | copied
  | refilled
  | duplicateRemovable
  | duplicateConflict
  | ineligible

structure CopyOutcome where
  status : CopyStatus
  glacierId : Option Uuid
  accountId : Option Uuid
  reason : Option String

/-- The row `copy_message` inserts for a live message. -/
def copiedRow (P : Platform) (id folderId : Uuid) (m : Message) : GlacierMessage P where
  id := id
  accountId := m.accountId
  folderId := folderId
  msgKey := m.msgKey P
  messageId := m.messageId
  receivedAt := m.receivedAt
  sizeBytes := m.sizeBytes
  rawSource := m.rawSource
  contentSha256 := m.rawSource.map P.sha256
  attachments := m.attachments.map fun a => ⟨a.id, a.data⟩
  attachmentCount := m.attachments.length
  originMessageId := some m.id
  state := .copied
  visibleAt := none
  expungeRequestedAt := none
  glacieredAt := none
  restoredAt := none
  restoreOutboxId := none
  restoreStartedAt := none
  lastError := none

/-- The tombstone `g` as `ON CONFLICT … DO UPDATE` refills it. -/
def refilledRow (g : GlacierMessage P) (folderId : Uuid) (m : Message) : GlacierMessage P :=
  { copiedRow P g.id folderId m with
    accountId := g.accountId, msgKey := g.msgKey
    expungeRequestedAt := g.expungeRequestedAt, glacieredAt := g.glacieredAt }

/-- `_handle_existing_glacier_row` for a row that is no tombstone.
SOURCE: glacier/operations.py:163-197 -/
def handleExistingGlacierRow (m : Message) (existing : GlacierMessage P) : CopyOutcome :=
  if m.rawSource.map P.sha256 = existing.contentSha256 then
    ⟨.duplicateRemovable, some existing.id, some m.accountId, none⟩
  else
    ⟨.duplicateConflict, some existing.id, some m.accountId,
      some "a different message already claims this identity in the glacier"⟩

/-- The copy. `nextId` is the `uuid4()` of a new row, which no row has yet.
SOURCE: glacier/operations.py:197-341 -/
def copyMessage (s : State P) (messageId : Uuid) : State P × CopyOutcome :=
  match s.messages.find? messageId with
  | none => (s, ⟨.ineligible, none, none, eligibilityReason s.config none⟩)
  | some m =>
    if !eligible s.config m then
      (s, ⟨.ineligible, none, none,
        some ((eligibilityReason s.config (some m)).getD "message is not eligible")⟩)
    else match s.config.glacierFolderId m.accountId with
      | none =>
        (s, ⟨.ineligible, none, some m.accountId,
          some "glacier is not enabled for this account"⟩)
      | some folderId =>
        match s.glacier.rows.find? fun g =>
          decide (g.accountId = m.accountId) && decide (g.msgKey = m.msgKey P) with
        | some g =>
          if g.restoredAt.isSome then
            ({ s with
              glacier := s.glacier.update (fun r => decide (r.id = g.id))
                (fun r => { refilledRow g folderId m with id := r.id }) (fun _ => rfl)
              held := s.held ++ m.rawSource.toList },
              ⟨.refilled, some g.id, some m.accountId, none⟩)
          else (s, handleExistingGlacierRow m g)
        | none =>
          let row := copiedRow P s.nextId folderId m
          if h : row.id ∉ s.glacier.rows.map GlacierMessage.id then
            ({ s with
              nextId := s.nextId + 1
              glacier := s.glacier.insert row h
              held := s.held ++ m.rawSource.toList },
              ⟨.copied, some s.nextId, some m.accountId, none⟩)
          else (s, ⟨.ineligible, none, some m.accountId, none⟩)

/-- The stored bytes hash to what was recorded when they were copied. -/
def GlacierMessage.contentIntact (g : GlacierMessage P) : Bool :=
  sqlEq (g.rawSource.map P.sha256) g.contentSha256

/-- Remove a live duplicate of a verified copy.
SOURCE: glacier/operations.py:344-394 -/
def resolveDuplicate (s : State P) (messageId existingGlacierId : Uuid) : State P × Bool :=
  match s.glacier.find? existingGlacierId with
  | none => (s, false)
  | some g =>
    if (decide (g.state = .verified) || decide (g.state = .removing) ||
        decide (g.state = .glaciered)) && g.contentIntact then
      let (t, rowcount) := expungeIfMatches s messageId g
      (t, decide (rowcount = 1))
    else (s, false)

/-- Each live attachment was copied and the copy hashes the same. -/
def attachmentsCopied (P : Platform) (live : List Attachment) (copied : List GlacierAttachment) :
    Bool :=
  live.all fun a =>
    let matching := copied.filter fun ga => decide (ga.sourceAttachmentId = a.id)
    !matching.isEmpty &&
      matching.all fun ga => decide (P.sha256 (ga.data.getD []) = P.sha256 (a.data.getD []))

/-- The predicate of the verify, for the live original.
SOURCE: glacier/operations.py:397-455 -/
def verifies (g : GlacierMessage P) (m : Message) : Bool :=
  m.live && sqlEq (g.rawSource.map P.sha256) (m.rawSource.map P.sha256) && g.contentIntact &&
    sqlEq (g.rawSource.map List.length) (m.rawSource.map List.length) &&
    decide (g.attachmentCount = m.attachments.length) &&
    attachmentsCopied P m.attachments g.attachments

def setGlacier (s : State P) (g : GlacierMessage P) : State P :=
  { s with
    glacier := s.glacier.update (fun r => decide (r.id = g.id)) (fun r => { g with id := r.id })
      (fun _ => rfl) }

def verifyMessage (s : State P) (glacierId : Uuid) : State P × Bool :=
  match s.glacier.find? glacierId with
  | none => (s, false)
  | some g =>
    match g.originMessageId.bind s.messages.find? with
    | none => (s, false)
    | some m =>
      if decide (g.state = .copied) && verifies g m then
        (setGlacier s { g with state := .verified }, true)
      else (s, false)

inductive ExpungeResult
  | expunged
  | rolledBack
  | notReady

/-- The expunge; a row count of 0 rolls the whole transaction back.
SOURCE: glacier/operations.py:457-536 -/
def expungeMessage (s : State P) (glacierId : Uuid) : State P × ExpungeResult :=
  match s.glacier.find? glacierId with
  | none => (s, .notReady)
  | some g =>
    match g.originMessageId with
    | none => (s, .notReady)
    | some originId =>
      if g.state ≠ .verified then (s, .notReady)
      else
        let claimed := setGlacier s { g with
          state := .removing, expungeRequestedAt := some s.now, visibleAt := some s.now }
        let (t, rowcount) := expungeIfMatches claimed originId g
        if rowcount = 0 then (s, .rolledBack) else (t, .expunged)

/-! ## The sweep -/

/-- The newest failed delete of the row's origin since its expunge was requested;
rows are in `created_at` order. -/
def failureOf (s : State P) (g : GlacierMessage P) : Option SyncNotification :=
  match g.originMessageId, g.expungeRequestedAt with
  | some originId, some requestedAt =>
    (s.notifications.filter fun n => decide (n.accountId = g.accountId) &&
      decide (n.messageId = originId) && decide (requestedAt < n.createdAt)).getLast?
  | _, _ => none

/-- `SELECT expunged_at, imap_uid FROM messages`: the live row is back. -/
def liveIntact (s : State P) (g : GlacierMessage P) : Bool :=
  match g.originMessageId.bind s.messages.find? with
  | none => false
  | some m => m.live && m.imapUid.isSome

/-- One row of `confirm_or_withdraw_removing`.
SOURCE: glacier/operations.py:539-694 -/
def confirmOrWithdrawRemoving (s : State P) (glacierId : Uuid) (graceSeconds : ℕ) :
    Option (State P) :=
  match s.glacier.find? glacierId with
  | none => none
  | some g =>
    if g.state = .removing ∧ olderThan g.expungeRequestedAt graceSeconds s.now = true then
      match failureOf s g with
      | none => some (setGlacier s { g with state := .glaciered, glacieredAt := some s.now })
      | some failure =>
        if failure.revertedAt.isNone then some s
        else if !liveIntact s g then some s
        else some { s with glacier := s.glacier.erase g.id }
    else none

def originGone (s : State P) (g : GlacierMessage P) : Bool :=
  match g.originMessageId.bind s.messages.find? with
  | none => true
  | some m => !m.live

/-- A live row with the copy's account, header, size and date. -/
def lookAlike (g : GlacierMessage P) (m : Message) : Bool := m.live && g.admits m

/-- One row of `reresolve_origins`: re-pointed to the look-alike the `LIMIT 1` query
returns, or finalised when there is none.
SOURCE: glacier/operations.py:697-783 -/
def reresolveOrigins (s : State P) (glacierId : Uuid) (found : Option Uuid) : Option (State P) :=
  match s.glacier.find? glacierId with
  | none => none
  | some g =>
    if g.state = .verified ∧ originGone s g = true then
      match found with
      | some mid =>
        match s.messages.find? mid with
        | none => none
        | some m =>
          if lookAlike g m then some (setGlacier s { g with originMessageId := some mid })
          else none
      | none =>
        if s.messages.rows.any (lookAlike g) then none
        else some (setGlacier s { g with
          state := .glaciered, glacieredAt := some s.now, originMessageId := none })
    else none

/-! ## Restore -/

/-- SOURCE: glacier/restore.py:53-76 -/
def requireMessageAppendSupport (c : Config) : Option String :=
  let refusal (version : String) : String :=
    s!"the glacier needs a newer PostIMAP than this deployment runs (service_version={version})"
  match c.postimapInfo with
  | none => some (refusal "unknown")
  | some info => if info.supportsMessageAppend then none else some (refusal info.serviceVersion)

/-- Why a restore is refused.
SOURCE: glacier/restore.py:105-143 -/
def restoreRefusal (s : State P) (row : Option (GlacierMessage P)) : Option String :=
  (requireMessageAppendSupport s.config).or <|
    match row with
    | none => some "message not found"
    | some g =>
      if g.state = .restoring then some "a restore is already in progress for this message"
      else if g.state ≠ .glaciered then
        match g.state, g.expungeRequestedAt with
        | .removing, some requestedAt =>
          let remaining := s.config.confirmGraceSeconds - (s.now - requestedAt)
          some s!"this message is still being removed from the mail server -- ready to restore in about {remaining} second(s)"
        | _, _ => some "message is not ready to restore"
      else if g.rawSource.isNone then some "this message has already been restored once"
      else none

/-- SOURCE: glacier/restore.py:79-168 -/
def startRestore (s : State P) (glacierId targetFolderId : Uuid) : Option (State P) :=
  match s.glacier.find? glacierId with
  | none => none
  | some g =>
    if restoreRefusal s (some g) = none then
      let row : OutboxRow :=
        { id := s.nextId, accountId := g.accountId, rawSource := g.rawSource
          targetFolderId := targetFolderId, internalDate := g.receivedAt.getD s.now
          status := .pending }
      if h : row.id ∉ s.outbox.rows.map OutboxRow.id then
        some { setGlacier s { g with
            state := .restoring, restoreOutboxId := some row.id
            restoreStartedAt := some s.now } with
          nextId := s.nextId + 1
          outbox := s.outbox.insert row h }
      else none
    else none

/-- A live row that proves the append of a restore landed.
SOURCE: glacier/restore.py:225-246 -/
def confirmsRestore (s : State P) (g : GlacierMessage P) (m : Message) : Bool :=
  match g.restoreOutboxId.bind s.outbox.find? with
  | none => false
  | some o =>
    decide (g.state = .restoring) && decide (o.status = .sent) &&
      decide (m.accountId = g.accountId) && decide (m.folderId = o.targetFolderId) && m.live &&
      m.imapUid.isSome && sqlEq (m.rawSource.map P.sha256) (g.rawSource.map P.sha256)

/-- One match of `confirm_restores`: the row becomes a tombstone.
SOURCE: glacier/restore.py:171-293 -/
def confirmRestores (s : State P) (glacierId liveId : Uuid) : Option (State P) :=
  match s.glacier.find? glacierId, s.messages.find? liveId with
  | some g, some m =>
    if confirmsRestore s g m then
      some (setGlacier s { g with
        state := .restored, restoredAt := some s.now, visibleAt := none, rawSource := none
        attachments := [] })
    else none
  | _, _ => none

/-- `o.status = 'dead'`, over a left join. -/
def appendDead (s : State P) (g : GlacierMessage P) : Bool :=
  match g.restoreOutboxId.bind s.outbox.find? with
  | none => false
  | some o => decide (o.status = .dead)

/-- One row of `fail_stale_restores`.
SOURCE: glacier/restore.py:296-344 -/
def failStaleRestores (s : State P) (glacierId : Uuid) (timeoutSeconds : ℕ) : Option (State P) :=
  match s.glacier.find? glacierId with
  | none => none
  | some g =>
    if g.state = .restoring ∧ g.restoredAt = none ∧
        (appendDead s g || olderThan g.restoreStartedAt timeoutSeconds s.now) = true then
      some (setGlacier s { g with
        state := .glaciered
        lastError := some (if appendDead s g then "the restore's outbox entry failed permanently"
          else "the restore did not complete within the timeout") })
    else none

/-! ## Runs -/

/-- One transaction of this service, or one step of PostIMAP and the server. -/
inductive Label
  | tick (elapsed : ℕ)
  | configure (config : Config)
  | copyMessage (messageId : Uuid)
  | verifyMessage (glacierId : Uuid)
  | expungeMessage (glacierId : Uuid)
  | resolveDuplicate (messageId glacierId : Uuid)
  | confirmOrWithdrawRemoving (glacierId : Uuid) (graceSeconds : ℕ)
  | reresolveOrigins (glacierId : Uuid) (found : Option Uuid)
  | startRestore (glacierId targetFolderId : Uuid)
  | confirmRestores (glacierId liveId : Uuid)
  | failStaleRestores (glacierId : Uuid) (timeoutSeconds : ℕ)
  | arrive (message : Message)
  | expungeLands (messageId : Uuid)
  | expungeFails (messageId : Uuid)
  | expungeReverts (messageId : Uuid)
  | resync (messageId : Uuid)
  | appendLands (outboxId : Uuid)
  | appendDies (outboxId : Uuid)
  | clientExpunges (messageId : Uuid)

/-- A message synced from the server: a new one, or an append coming back. -/
def arrive (s : State P) (m : Message) : Option (State P) :=
  if h : ({ m with id := s.nextId, expungedAt := none } : Message).id ∉
      s.messages.rows.map Message.id then
    some { s with
      nextId := s.nextId + 1
      messages := s.messages.insert { m with id := s.nextId, expungedAt := none } h }
  else none

/-- A UIDVALIDITY resync of one row: gone under its id, back under a new one. A
pending expunge of the old id goes with it. -/
def resync (s : State P) (messageId : Uuid) : Option (State P) :=
  match s.messages.find? messageId with
  | none => none
  | some m =>
    arrive { s with messages := s.messages.erase messageId } { m with imapUid := some s.nextId }

def endAppend (s : State P) (outboxId : Uuid) (status : OutboxStatus) : State P :=
  { s with
    outbox := s.outbox.update
      (fun o => decide (o.id = outboxId) && decide (o.status = .pending))
      (fun o => { o with status := status }) (fun _ => rfl) }

def step (s : State P) : Label → Option (State P)
  | .tick elapsed => some { s with now := s.now + elapsed }
  | .configure config => some { s with config := config }
  | .copyMessage messageId =>
    let (t, outcome) := copyMessage s messageId
    match outcome.status, outcome.glacierId with
    | .duplicateRemovable, some glacierId =>
      some { t with pendingDuplicates := t.pendingDuplicates ++ [(messageId, glacierId)] }
    | _, _ => some t
  | .verifyMessage glacierId => some (verifyMessage s glacierId).1
  | .expungeMessage glacierId => some (expungeMessage s glacierId).1
  | .resolveDuplicate messageId glacierId =>
    if (messageId, glacierId) ∈ s.pendingDuplicates then
      some { (resolveDuplicate s messageId glacierId).1 with
        pendingDuplicates := s.pendingDuplicates.erase (messageId, glacierId) }
    else none
  | .confirmOrWithdrawRemoving glacierId graceSeconds =>
    confirmOrWithdrawRemoving s glacierId graceSeconds
  | .reresolveOrigins glacierId found => reresolveOrigins s glacierId found
  | .startRestore glacierId targetFolderId => startRestore s glacierId targetFolderId
  | .confirmRestores glacierId liveId => confirmRestores s glacierId liveId
  | .failStaleRestores glacierId timeoutSeconds => failStaleRestores s glacierId timeoutSeconds
  | .arrive message => arrive s message
  | .expungeLands messageId =>
    match s.messages.find? messageId with
    | none => none
    | some m =>
      if m.live then none else some { s with messages := s.messages.erase messageId }
  | .expungeFails messageId =>
    match s.messages.find? messageId with
    | none => none
    | some m =>
      if m.live then none
      else some { s with
        notifications := s.notifications ++ [⟨m.accountId, messageId, s.now, none⟩] }
  | .expungeReverts messageId =>
    if s.notifications.any fun n => decide (n.messageId = messageId) && n.revertedAt.isNone then
      some { s with
        notifications := s.notifications.map fun n =>
          if n.messageId = messageId ∧ n.revertedAt = none then
            { n with revertedAt := some s.now } else n
        messages := s.messages.update (fun m => decide (m.id = messageId))
          (fun m => { m with expungedAt := none }) (fun _ => rfl) }
    else none
  | .resync messageId => resync s messageId
  | .appendLands outboxId => some (endAppend s outboxId .sent)
  | .appendDies outboxId => some (endAppend s outboxId .dead)
  | .clientExpunges messageId => some { s with messages := s.messages.erase messageId }

def start (P : Platform) (config : Config) : State P :=
  ⟨0, 0, config, .empty, .empty, .empty, [], [], []⟩

def system (P : Platform) : TransitionSystem (State P) Label where
  init s := ∃ config, s = start P config
  step := step

end MailVerdict.Model.Glacier
