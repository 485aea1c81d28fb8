import Mathlib.Data.List.Sort
import MailVerdict.Computation.KeyedTable

/-!
# The staging table of sends and its worker

A send with an undo window waits in `pending_sends`. Once a second the worker takes the
twenty rows due longest and moves them into `outbox` in one session: one transaction,
committed when the body returns and rolled back when it raises.

A session of the object mapper is a state of its own. A flush the database refuses rolls
the whole transaction back and leaves the session inactive: whatever is asked of it next
raises. The worker catches the exception of one row's insert and goes on with the next
row in that same session.

`pending_sends` is listed in the order of its heap, which is the order in which the
index on `send_after` lists the rows of one instant.
-/

namespace MailVerdict.Model.PendingSends

open MailVerdict.Computation

abbrev Uuid := ℕ

abbrev Time := ℕ

/-- SOURCE: database/models.py, `Outbox.kind` -/
inductive Kind
  | send
  | draft
deriving DecidableEq

/-- The arguments `pending_sends` holds for `insert_outbox`. -/
structure Composed where
  accountId : Uuid
  fromAddr : Option String
  toAddrs : Option (List String)
  ccAddrs : Option (List String)
  bccAddrs : Option (List String)
  subject : Option String
  bodyText : Option String
  bodyHtml : Option String
  inReplyTo : Option String
  references : Option (List String)
  replacesMessageId : Option Uuid
deriving DecidableEq

/-- SOURCE: database/models.py:1618-1658 -/
structure PendingSend extends Composed where
  id : Uuid
  sendAfter : Time
  cancelledAt : Option Time
deriving DecidableEq

/-- SOURCE: database/models.py:1661-1678 -/
structure PendingSendAttachment where
  pendingSendId : Uuid
  filename : Option String
  contentType : Option String
  data : List UInt8
  contentId : Option String

/-- What a consumer writes into a row of `outbox`. -/
structure Outbox extends Composed where
  id : Uuid
  kind : Kind

/-- SOURCE: database/models.py:434-453 -/
structure OutboxAttachment where
  outboxId : Uuid
  filename : String
  contentType : Option String
  data : List UInt8
  contentId : Option String

/-- The tables of the two, committed or as one transaction sees them. -/
structure Db where
  pendingSends : KeyedTable PendingSend.id
  pendingSendAttachments : List PendingSendAttachment
  outbox : KeyedTable Outbox.id
  outboxAttachments : List OutboxAttachment

/-- What the database refuses besides a second row under one id: the foreign key on
`replaces_message_id` and every other constraint on the outbox tables. -/
structure Constraints where
  refusesOutbox : Outbox → Bool
  refusesAttachment : OutboxAttachment → Bool

namespace Db

def attachmentsOf (db : Db) (id : Uuid) : List PendingSendAttachment :=
  db.pendingSendAttachments.filter fun a => decide (a.pendingSendId = id)

def outboxAttachmentsOf (db : Db) (id : Uuid) : List OutboxAttachment :=
  db.outboxAttachments.filter fun a => decide (a.outboxId = id)

/-- `DELETE FROM pending_sends WHERE id = …`, its attachments with it. -/
def deletePendingSend (db : Db) (id : Uuid) : Db :=
  { db with
    pendingSends := db.pendingSends.erase id
    pendingSendAttachments :=
      db.pendingSendAttachments.filter fun a => decide (a.pendingSendId ≠ id) }

/-- `INSERT INTO outbox`, or `none` where the database refuses the row. -/
def insertOutboxRow (c : Constraints) (db : Db) (o : Outbox) : Option Db :=
  if h : o.id ∈ db.outbox.rows.map Outbox.id then none
  else if c.refusesOutbox o then none
  else some { db with outbox := db.outbox.insert o h }

/-- `INSERT INTO outbox_attachments` of all of a row's attachments. -/
def insertOutboxAttachments (c : Constraints) (db : Db) (as : List OutboxAttachment) :
    Option Db :=
  if as.any c.refusesAttachment then none
  else some { db with outboxAttachments := db.outboxAttachments ++ as }

end Db

/-- A session: the tables its transaction began with, the tables with what it flushed,
the rows marked for deletion and not yet flushed, and whether it may still be used. -/
structure Session where
  begun : Db
  view : Db
  deleted : List Uuid
  active : Bool

namespace Session

def start (db : Db) : Session := ⟨db, db, [], true⟩

/-- A flush writes the deletions that are due, then what was added. Refused, it rolls
back the transaction and leaves the session inactive. -/
def flush (s : Session) (write : Db → Option Db) : Session :=
  match write (s.deleted.foldl Db.deletePendingSend s.view) with
  | some view => { s with view := view, deleted := [] }
  | none => { s with view := s.begun, deleted := [], active := false }

/-- A statement flushes first and then sees the transaction's tables; an inactive session
raises. -/
def execute (s : Session) : Option Session :=
  if s.active then some (s.flush some) else none

/-- `session.delete(row)`. -/
def delete (s : Session) (id : Uuid) : Session := { s with deleted := s.deleted ++ [id] }

/-- `session.commit()`, which raises on an inactive session. -/
def commit (s : Session) : Option Db := (s.execute).map Session.view

end Session

/-- `async with db.session()`: commits on success, rolls back on exception.
SOURCE: database/connection.py:83-100 -/
def inSession (db : Db) (body : Session → Option Session) : Db :=
  match (body (Session.start db)).bind Session.commit with
  | some committed => committed
  | none => db

/-- The row and then its attachments, each in a flush of its own. The result tells
whether the call returned or raised; it leaves the session behind either way.
SOURCE: postimap/actions.py:654-751 -/
def insertOutbox (c : Constraints) (s : Session) (o : Outbox) (attachments : List OutboxAttachment) :
    Bool × Session :=
  let inserted := s.flush fun db => db.insertOutboxRow c o
  if inserted.active then
    let attached := inserted.flush fun db => db.insertOutboxAttachments c attachments
    (attached.active, attached)
  else (false, inserted)

/-- The outbox row of a staged send: its own id and columns. -/
def PendingSend.toOutbox (row : PendingSend) : Outbox :=
  { toComposed := row.toComposed, id := row.id, kind := .send }

def PendingSendAttachment.filenameOr (a : PendingSendAttachment) : String :=
  match a.filename with
  | some name => if name.isEmpty then "attachment" else name
  | none => "attachment"

def PendingSendAttachment.toOutboxAttachment (id : Uuid) (a : PendingSendAttachment) :
    OutboxAttachment :=
  { outboxId := id, filename := a.filenameOr, contentType := a.contentType, data := a.data
    contentId := a.contentId }

def claimBatchSize : ℕ := 20

/-- SOURCE: outbox/pending.py:174-177 -/
def PendingSend.due (now : Time) (row : PendingSend) : Bool :=
  row.cancelledAt.isNone && decide (row.sendAfter ≤ now)

/-- The uncancelled rows that are due, `ORDER BY send_after`. -/
def dueSends (now : Time) (db : Db) : List PendingSend :=
  (db.pendingSends.rows.filter (PendingSend.due now)).insertionSort
    fun a b => a.sendAfter ≤ b.sendAfter

/-- One pass of the loop. `none` is an exception that leaves it: the one the insert
raises is caught, the one a statement of an inactive session raises is not.
SOURCE: outbox/pending.py:186-228 -/
def moveDueSend (c : Constraints) (s : Session) (row : PendingSend) : Option Session :=
  (s.execute).map fun s =>
    let attachments := (s.view.attachmentsOf row.id).map (·.toOutboxAttachment row.id)
    let (returned, s) := insertOutbox c s row.toOutbox attachments
    if returned then s.delete row.id else s

/-- One tick. SOURCE: outbox/pending.py:169-228 -/
def processDueSends (c : Constraints) (now : Time) (db : Db) : Db :=
  inSession db fun s =>
    ((dueSends now s.view).take claimBatchSize).foldlM (moveDueSend c) s

/-- The tables after the first ticks of a worker that ticks at the given times. -/
def ticks (c : Constraints) (clock : ℕ → Time) (db : Db) : ℕ → Db
  | 0 => db
  | n + 1 => processDueSends c (clock n) (ticks c clock db n)

/-- Whether the database refuses a row's insert. -/
def insertFails (c : Constraints) (db : Db) (row : PendingSend) : Bool :=
  decide (row.id ∈ db.outbox.rows.map Outbox.id) || c.refusesOutbox row.toOutbox ||
    ((db.attachmentsOf row.id).map (·.toOutboxAttachment row.id)).any c.refusesAttachment

end MailVerdict.Model.PendingSends
