import Mathlib.Data.Finset.Sort
import MailVerdict.Computation.ReadCommitted
import MailVerdict.Computation.RowVersions

/-!
# Deleting a folder beside everything that moves mail

`delete_folder` is one transaction at READ COMMITTED: it reads the folder, counts the
account's unconfirmed moves, its notifications and the folder's messages, each in a snapshot
of its own, and then marks the folder's row as deleted. A read that finds a reason against it
answers with an error, after which the transaction can only be rolled back. The single and
bulk actions, the pipeline and undo are transactions of the statements of
`postimap/actions.py`. What PostIMAP writes (arrivals, expunges, confirmed and reverted moves,
folders that are gone, notifications) are changes of the tables from elsewhere.

An update changes the rows that match in its snapshot and still match in their newest
version. Beside the tables the database records what each deletion that committed found.
-/

namespace MailVerdict.Model.FolderDeletion

open MailVerdict.Computation

abbrev Uuid := ℕ

structure Message where
  id : Uuid
  accountId : Uuid
  folderId : Uuid
  imapUid : Option ℕ
  isExpunged : Bool
deriving DecidableEq

structure Folder where
  id : Uuid
  accountId : Uuid
  imapName : String
  specialUse : Option String
  specialUseOverride : Option String
  initialSyncDone : Bool
  backfillTotal : Option ℕ
  isDeleted : Bool
  /-- A glacier that is turned on has this id. -/
  isGlacier : Bool
deriving DecidableEq

structure SyncNotification where
  id : Uuid
  accountId : Uuid
  isAcknowledged : Bool
deriving DecidableEq

/-- The row of `postimap_info`; `folderCrud` when its version is at least 1.3.0. -/
structure PostimapInfo where
  serviceVersion : String
  folderCrud : Bool

/-- A call of `delete_folder` that has read its folder. -/
structure Request where
  folderId : Uuid
  accountId : Uuid
  confirmMessageCount : Option ℤ

/-- A deletion that committed, and what there was then: the account's unconfirmed moves, and
the messages of the folder. -/
structure Answer where
  request : Request
  unconfirmed : Finset Uuid
  messageCount : ℕ

structure Db where
  messages : RowTable Message.id
  folders : RowTable Folder.id
  notifications : RowTable SyncNotification.id
  info : Option PostimapInfo
  answers : List Answer

structure Delta where
  messages : Writes Message.id := .none
  folders : Writes Folder.id := .none
  notifications : Writes SyncNotification.id := .none
  deleted : Option Request := none

/-- The statements of `delete_folder`, from its error answers on, and those that write
messages. -/
inductive Stmt
  | glacier (folderId : Uuid) (confirmMessageCount : Option ℤ)
  | support (folderId : Uuid) (confirmMessageCount : Option ℤ)
  | folder (folderId : Uuid) (confirmMessageCount : Option ℤ)
  | pendingMoves (r : Request)
  | pendingIds (r : Request) (pendingMoves : ℕ)
  | notifications (r : Request)
  | messageCount (r : Request)
  | deleteFolder (r : Request)
  | refuse (statusCode : ℕ) (detail : String)
  | moveMessageBulk (messageIds : Finset Uuid) (targetFolderId : Uuid)
  | moveMessagesFrom (messageIds : Finset Uuid) (sourceFolderId targetFolderId : Uuid)
  | expungeBulk (messageIds : Finset Uuid) (expectedFolderId : Option Uuid)

/-- SOURCE: postimap/actions.py:256-294 -/
def Stmt.moveMessage (messageId targetFolderId : Uuid) : Stmt :=
  .moveMessageBulk {messageId} targetFolderId

def Stmt.Writing : Stmt → Prop
  | .moveMessageBulk _ _ | .moveMessagesFrom _ _ _ | .expungeBulk _ _ => True
  | _ => False

instance (st : Stmt) : Decidable st.Writing := by
  cases st <;> unfold Stmt.Writing <;> infer_instance

inductive Kind
  | deleteFolder (folderId : Uuid) (confirmMessageCount : Option ℤ)
  /-- An action, a stage of the pipeline, an undo: any statements that write messages. -/
  | writer (stmts : List {st : Stmt // st.Writing})

/-- What PostIMAP writes, of any of its tables. -/
structure Event where
  messages : Writes Message.id := .none
  folders : Writes Folder.id := .none
  notifications : Writes SyncNotification.id := .none

/-! ## What the guards read -/

namespace Db

variable (d : Db)

/-- The predicate of an optimistic move that is pending.
SOURCE: api/folder_management.py:359-365 -/
def unconfirmed (accountId : Uuid) : Finset Message :=
  d.messages.rows.filter fun m =>
    m.accountId = accountId ∧ m.imapUid = none ∧ m.isExpunged = false

/-- SOURCE: api/folder_management.py:395-400 -/
def unacknowledged (accountId : Uuid) : Finset SyncNotification :=
  d.notifications.rows.filter fun n => n.accountId = accountId ∧ n.isAcknowledged = false

/-- SOURCE: api/folder_management.py:581-585 -/
def messageCount (folderId : Uuid) : ℕ :=
  (d.messages.rows.filter fun m => m.folderId = folderId ∧ m.isExpunged = false).card

/-- The answer of a deletion that commits now. -/
def answer (r : Request) : Answer :=
  ⟨r, (d.unconfirmed r.accountId).image Message.id, d.messageCount r.folderId⟩

def write (c : Delta) : Db :=
  let written := { d with
    messages := d.messages.view c.messages
    folders := d.folders.view c.folders
    notifications := d.notifications.view c.notifications }
  { written with answers := d.answers ++ (c.deleted.map written.answer).toList }

def outside (e : Event) : Db :=
  { d with
    messages := d.messages.view e.messages
    folders := d.folders.view e.folders
    notifications := d.notifications.view e.notifications }

end Db

/-! ## The statements of a deletion -/

/-- SOURCE: api/folder_management.py:62-64 -/
def pendingMovesNamedLimit : ℕ := 20

/-- SOURCE: api/folder_management.py:57-60, 312-321 -/
def unsupportedDetail (info : Option PostimapInfo) : String :=
  "Folder creation and deletion require PostIMAP service_version >= 1.3.0; " ++
    "the running instance reports " ++
    (info.map PostimapInfo.serviceVersion).getD "unknown" ++ "."

/-- SOURCE: api/folder_management.py:220-231, 550-555 -/
def runGlacier (snap : Db) (f : Uuid) (confirm : Option ℤ) : Stmt :=
  if (snap.folders.find? f).any Folder.isGlacier then
    .refuse 400 ("The glacier cannot be deleted -- turn it off in account settings " ++
      "instead, once it is empty.")
  else .support f confirm

/-- SOURCE: api/folder_management.py:312-321 -/
def runSupport (snap : Db) (f : Uuid) (confirm : Option ℤ) : Stmt :=
  if snap.info.any PostimapInfo.folderCrud then .folder f confirm
  else .refuse 501 (unsupportedDetail snap.info)

/-- The first sync of a folder that has not finished it.
SOURCE: api/folder_management.py:569-580 -/
def unsyncedDetail (backfillTotal : Option ℕ) : String :=
  "This folder has not finished its first sync -- backfill " ++
    (if backfillTotal = none then "has not started yet" else "is in progress") ++ ". Its " ++
    "message count cannot be trusted until that finishes, since the mail " ++
    "server may still be holding mail this mirror has not counted yet. " ++
    "Wait for the sync to finish and try again."

/-- SOURCE: api/folder_management.py:559-592 -/
def runFolder (snap : Db) (f : Uuid) (confirm : Option ℤ) : Stmt :=
  match (snap.folders.find? f).filter fun r => !r.isDeleted with
  | none => .refuse 404 "Folder not found"
  | some row =>
    let effectiveSpecialUse :=
      ((row.specialUseOverride.filter (· ≠ "")).or row.specialUse).getD ""
    if effectiveSpecialUse.toLower = "inbox" ∨ row.imapName.toUpper = "INBOX" then
      .refuse 400 "INBOX cannot be deleted"
    else if !row.initialSyncDone then .refuse 409 (unsyncedDetail row.backfillTotal)
    else .pendingMoves ⟨f, row.accountId, confirm⟩

/-- SOURCE: api/folder_management.py:358-366 -/
def runPendingMoves (snap : Db) (r : Request) : Stmt :=
  let pendingMoves := (snap.unconfirmed r.accountId).card
  if pendingMoves ≠ 0 then .pendingIds r pendingMoves else .notifications r

/-- SOURCE: api/folder_management.py:367-393 -/
def runPendingIds (snap : Db) (r : Request) (pendingMoves : ℕ) : Stmt :=
  let pendingIds :=
    (((snap.unconfirmed r.accountId).image Message.id).sort (· ≤ ·)).take pendingMovesNamedLimit
  let omitted : ℤ := pendingMoves - pendingIds.length
  let idsClause := ", ".intercalate (pendingIds.map toString) ++
    (if omitted ≠ 0 then ", and " ++ toString omitted ++ " more" else "")
  .refuse 409 ("This account has " ++ toString pendingMoves ++
    " message move(s) not yet confirmed by " ++
    "the mail server. Deleting a folder now could destroy mail the mirror no " ++
    "longer attributes to it -- wait for the pending move(s) to finish and " ++
    "try again. Affected message id(s): " ++ idsClause ++ ".")

/-- SOURCE: api/folder_management.py:395-409 -/
def runNotifications (snap : Db) (r : Request) : Stmt :=
  let unacknowledged := (snap.unacknowledged r.accountId).card
  if unacknowledged ≠ 0 then
    .refuse 409 ("This account has " ++ toString unacknowledged ++
      " unacknowledged notification(s) about a " ++
      "write that did not reach the mail server. Acknowledge them (or resolve " ++
      "what they report) before deleting a folder.")
  else .messageCount r

/-- SOURCE: api/folder_management.py:581-595 -/
def runMessageCount (snap : Db) (r : Request) : Stmt :=
  let messageCount := snap.messageCount r.folderId
  if r.confirmMessageCount ≠ some (messageCount : ℤ) then
    .refuse 409 ("This folder holds " ++ toString messageCount ++ " message(s), all destroyed " ++
      "on the mail server irreversibly if deleted. Repeat the request " ++
      "with ?confirm_message_count=" ++ toString messageCount ++ " to proceed.")
  else .deleteFolder r

/-- SOURCE: postimap/actions.py:569-588 -/
def runDeleteFolder (snap cur : Db) (r : Request) : Delta :=
  let marked := cur.folders.filter fun f => f.id = r.folderId ∧ f.id ∈ snap.folders.keys
  { folders := .putAll (marked.rewrite (fun f => { f with isDeleted := true }) fun _ => rfl)
    deleted := some r }

/-! ## The statements that write messages -/

/-- An update of the messages that satisfy `p` in the snapshot and still do. -/
def updateMessages (snap cur : Db) (p : Message → Prop) [DecidablePred p]
    (f : Message → Message) (hf : ∀ m, (f m).id = m.id) : Delta :=
  let matched := cur.messages.filter fun m => p m ∧ m.id ∈ (snap.messages.filter p).keys
  { messages := .putAll (matched.rewrite f hf) }

/-- The optimistic move: the new folder, and no uid. -/
def Message.moved (targetFolderId : Uuid) (m : Message) : Message :=
  { m with folderId := targetFolderId, imapUid := none }

/-- SOURCE: postimap/actions.py:429-463 -/
def runMoveMessageBulk (snap cur : Db) (messageIds : Finset Uuid) (target : Uuid) : Delta :=
  updateMessages snap cur (fun m => m.id ∈ messageIds ∧ m.folderId ≠ target)
    (Message.moved target) fun _ => rfl

/-- SOURCE: postimap/actions.py:465-501 -/
def runMoveMessagesFrom (snap cur : Db) (messageIds : Finset Uuid) (source target : Uuid) :
    Delta :=
  if source = target then {}
  else updateMessages snap cur
    (fun m => m.id ∈ messageIds ∧ m.folderId = source ∧ m.isExpunged = false)
    (Message.moved target) fun _ => rfl

/-- SOURCE: postimap/actions.py:504-532 -/
def runExpungeBulk (snap cur : Db) (messageIds : Finset Uuid) (expected : Option Uuid) : Delta :=
  updateMessages snap cur
    (fun m => m.id ∈ messageIds ∧ ∀ f ∈ expected, m.folderId = f ∧ m.isExpunged = false)
    (fun m => { m with isExpunged := true }) fun _ => rfl

/-- A statement's effect and what follows it. Nothing follows an error answer, and it cannot
be run: only the rollback is left. -/
def run (snap cur : Db) : Stmt → Option (Delta × List Stmt)
  | .glacier f confirm => some ({}, [runGlacier snap f confirm])
  | .support f confirm => some ({}, [runSupport snap f confirm])
  | .folder f confirm => some ({}, [runFolder snap f confirm])
  | .pendingMoves r => some ({}, [runPendingMoves snap r])
  | .pendingIds r n => some ({}, [runPendingIds snap r n])
  | .notifications r => some ({}, [runNotifications snap r])
  | .messageCount r => some ({}, [runMessageCount snap r])
  | .deleteFolder r => some (runDeleteFolder snap cur r, [])
  | .refuse _ _ => none
  | .moveMessageBulk ids target => some (runMoveMessageBulk snap cur ids target, [])
  | .moveMessagesFrom ids source target => some (runMoveMessagesFrom snap cur ids source target, [])
  | .expungeBulk ids expected => some (runExpungeBulk snap cur ids expected, [])

/-- SOURCE: api/folder_management.py:528-598 -/
def program : Kind → List Stmt
  | .deleteFolder f confirm => [.glacier f confirm]
  | .writer stmts => stmts.map Subtype.val

/-- Two statements that write one row cannot both hold it. -/
def waits (ws : List Delta) (c : Delta) : Bool :=
  ws.any fun w => decide (¬ Disjoint w.messages.keys c.messages.keys) ||
    decide (¬ Disjoint w.folders.keys c.folders.keys)

def engine : Engine Db Delta Stmt Empty Kind Event where
  write := Db.write
  run := run
  uses _ _ := ∅
  waits := waits
  program := program
  takesLock _ := false
  outside := Db.outside

abbrev State := Engine.State Db Delta Stmt Empty

abbrev Label := Engine.Label Kind Event

abbrev Tx := Engine.Tx Db Delta Stmt Empty

/-- Any mirror, no transaction open, and no deletion yet. -/
def system : TransitionSystem State Label where
  init s := s.txs = [] ∧ s.db.answers = []
  step := engine.step

end MailVerdict.Model.FolderDeletion
