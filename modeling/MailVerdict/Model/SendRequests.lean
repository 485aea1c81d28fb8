import MailVerdict.Computation.TransitionSystem
import MailVerdict.Model.PendingSends

/-!
# Accepting, staging, moving and cancelling a send

Four kinds of transactions over two tables and a key table, interleaved statement by
statement under READ COMMITTED: a request (`create_outbox`), the worker's tick, a cancel,
and PostIMAP's writes to the status of a queued row. What a transaction wrote is seen by
the others when it commits.

A request holds the advisory lock of its idempotency key from its first statement, and
that of the draft it sends from the check of the draft on, both until it ends. The worker
and a cancel hold row locks of `pending_sends`: the worker passes over a row that is
locked, a cancel waits for it. Any number of workers may be open at once; the timer's own
lock is not relied on.

A statement that has to wait is a step that is not enabled. Any open transaction may be
rolled back at any moment: a refused request, a tick whose insert the database refuses, a
crash.
-/

namespace MailVerdict.Model.SendRequests

open MailVerdict.Computation
open Model.PendingSends

abbrev TxId := ℕ

/-- The status PostIMAP keeps for a row of `outbox`. -/
inductive Status
  | pending
  | sending
  | sent
  | failed
  | dead
deriving DecidableEq

/-- A row of `outbox`, what the consumer wrote and PostIMAP's status. -/
structure QueuedRow where
  row : Outbox
  status : Status

def QueuedRow.id (q : QueuedRow) : Uuid := q.row.id

/-- SOURCE: database/models.py:1681-1701 -/
structure OutboxSubmission where
  idempotencyKey : Uuid
  kind : Kind
  targetId : Uuid

/-- A body of `POST /outbox`. -/
structure Request extends Composed where
  kind : Kind
  idempotencyKey : Option Uuid

inductive Written
  | staged (row : PendingSend)
  | queued (row : Outbox)

def Written.id : Written → Uuid
  | .staged row => row.id
  | .queued row => row.id

inductive Phase
  | started
  | keyLocked (key : Uuid)
  | keyUnused
  | draftLocked (draft : Uuid)
  | draftNotStaged (draft : Uuid)
  | draftFree
  | inserted (written : Written)
  | recorded (written : Written)

def Phase.written : Phase → Option Written
  | .inserted w | .recorded w => some w
  | _ => none

/-- An open transaction: a request, a tick that has claimed its rows, or a cancel whose
update has matched its row. -/
inductive Tx
  | create (request : Request) (phase : Phase)
  | move (batch : List PendingSend)
  | cancel (id : Uuid)

/-- The row an open transaction has written and not committed. -/
def Tx.written : Tx → Option Written
  | .create _ phase => phase.written
  | .move _ | .cancel _ => none

/-- A request that was answered with a row of its own. -/
structure Accepted where
  id : Uuid
  idempotencyKey : Option Uuid

structure State where
  now : Time
  nextId : Uuid
  undoSendSeconds : ℕ
  pendingSends : KeyedTable PendingSend.id
  outbox : KeyedTable QueuedRow.id
  submissions : KeyedTable OutboxSubmission.idempotencyKey
  txs : TxId → Option Tx
  keyLock : Uuid → Option TxId
  draftLock : Uuid → Option TxId
  rowLock : Uuid → Option TxId
  accepted : List Accepted

inductive Label
  | tick (elapsed : ℕ)
  | setUndoSendSeconds (seconds : ℕ)
  | createOutbox (n : TxId) (request : Request)
  | lockKey (n : TxId)
  | readSubmission (n : TxId)
  | lockDraft (n : TxId)
  | readStaged (n : TxId)
  | readQueued (n : TxId)
  | insert (n : TxId)
  | record (n : TxId)
  | claimDue (n : TxId)
  | cancel (n : TxId) (id : Uuid)
  | commit (n : TxId)
  | rollback (n : TxId)
  | setStatus (id : Uuid) (status : Status)

namespace State

variable (s : State)

/-- A lock goes with the transaction that holds it. -/
def released (lock : Uuid → Option TxId) (n : TxId) (x : Uuid) : Option TxId :=
  if lock x = some n then none else lock x

def finish (n : TxId) : State :=
  { s with
    txs := Function.update s.txs n none
    keyLock := released s.keyLock n
    draftLock := released s.draftLock n
    rowLock := released s.rowLock n }

def setTx (n : TxId) (tx : Tx) : State := { s with txs := Function.update s.txs n (some tx) }

/-- `pg_advisory_xact_lock` on the key, if the request has one.
SOURCE: outbox/submissions.py:35-38, 55; api/outbox.py:276-277 -/
def lockKey (n : TxId) (r : Request) : Option State :=
  match r.idempotencyKey with
  | none => some (s.setTx n (.create r .keyUnused))
  | some k =>
    if s.keyLock k = none then
      some { s.setTx n (.create r (.keyLocked k)) with
        keyLock := Function.update s.keyLock k (some n) }
    else none

/-- A key with a submission is answered with its row, or refused for another kind.
SOURCE: outbox/submissions.py:56-59; api/outbox.py:278-279, 499-524 -/
def readSubmission (n : TxId) (r : Request) (k : Uuid) : State :=
  match s.submissions.find? k with
  | some _ => s.finish n
  | none => s.setTx n (.create r .keyUnused)

/-- The lock of the draft a send names.
SOURCE: api/outbox.py:345-347; outbox/submissions.py:86 -/
def lockDraft (n : TxId) (r : Request) : Option State :=
  match r.kind, r.replacesMessageId with
  | .send, some d =>
    if s.draftLock d = none then
      some { s.setTx n (.create r (.draftLocked d)) with
        draftLock := Function.update s.draftLock d (some n) }
    else none
  | _, _ => some (s.setTx n (.create r .draftFree))

/-- SOURCE: outbox/submissions.py:87-97 -/
def readStaged (n : TxId) (r : Request) (d : Uuid) : State :=
  if s.pendingSends.rows.any fun p =>
      decide (p.replacesMessageId = some d) && p.cancelledAt.isNone then s.finish n
  else s.setTx n (.create r (.draftNotStaged d))

/-- SOURCE: outbox/submissions.py:98-107 -/
def readQueued (n : TxId) (r : Request) (d : Uuid) : State :=
  if s.outbox.rows.any fun q => decide (q.row.replacesMessageId = some d) &&
      decide (q.row.kind = .send) && decide (q.status ≠ .dead) then s.finish n
  else s.setTx n (.create r .draftFree)

/-- `stage_send` for a send with an undo window, `insert_outbox` for everything else,
under an id no row has had.
SOURCE: api/outbox.py:361-418; outbox/pending.py:90-104 -/
def write (r : Request) : Written :=
  if r.kind = .send ∧ 0 < s.undoSendSeconds then
    .staged { toComposed := r.toComposed, id := s.nextId, sendAfter := s.now + s.undoSendSeconds
              cancelledAt := none }
  else .queued { toComposed := r.toComposed, id := s.nextId, kind := r.kind }

def insert (n : TxId) (r : Request) : State :=
  { s.setTx n (.create r (.inserted (s.write r))) with nextId := s.nextId + 1 }

/-- `record_submission`: a committed row under the key is an error.
SOURCE: outbox/submissions.py:62-70; api/outbox.py:383-386, 419-420 -/
def record (n : TxId) (r : Request) (w : Written) : State :=
  match r.idempotencyKey with
  | some k => if (s.submissions.find? k).isSome then s.finish n
      else s.setTx n (.create r (.recorded w))
  | none => s.setTx n (.create r (.recorded w))

/-- The rows a tick claims: due, uncancelled, locked by nobody, the twenty due longest.
SOURCE: outbox/pending.py:172-182 -/
def claimable : List PendingSend :=
  ((s.pendingSends.rows.filter fun p => p.due s.now && decide (s.rowLock p.id = none)).insertionSort
    fun a b => a.sendAfter ≤ b.sendAfter).take claimBatchSize

def claimDue (n : TxId) : State :=
  { s.setTx n (.move s.claimable) with
    rowLock := fun x => if x ∈ s.claimable.map PendingSend.id then some n else s.rowLock x }

/-- The update waits for the row's lock; it matches an uncancelled row. Without a match
the call answers false and has written nothing.
SOURCE: outbox/pending.py:125-151 -/
def cancel (n : TxId) (id : Uuid) : Option State :=
  if s.rowLock id ≠ none then none
  else
    match s.pendingSends.find? id with
    | some row =>
      if row.cancelledAt = none then
        some { s.setTx n (.cancel id) with rowLock := Function.update s.rowLock id (some n) }
      else some s
    | none => some s

/-- The row a request wrote, as the tables have it after the commit. -/
def addWritten : Written → Option State
  | .staged row =>
    if h : row.id ∉ s.pendingSends.rows.map PendingSend.id then
      some { s with pendingSends := s.pendingSends.insert row h }
    else none
  | .queued row =>
    if h : row.id ∉ s.outbox.rows.map QueuedRow.id then
      some { s with outbox := s.outbox.insert ⟨row, .pending⟩ h }
    else none

/-- The submission, likewise. A key that another transaction committed since makes the
insert wait and then fail: there is no commit. -/
def addSubmission (r : Request) (id : Uuid) : Option State :=
  match r.idempotencyKey with
  | some k =>
    if h : k ∉ s.submissions.rows.map OutboxSubmission.idempotencyKey then
      some { s with submissions := s.submissions.insert ⟨k, r.kind, id⟩ h }
    else none
  | none => some s

def commitCreate (n : TxId) (r : Request) (w : Written) : Option State :=
  (s.addWritten w).bind fun t => (t.addSubmission r w.id).map fun u =>
    { u.finish n with accepted := u.accepted ++ [⟨w.id, r.idempotencyKey⟩] }

/-- One row of a tick: gone from the staging table, in `outbox` under its own id.
SOURCE: outbox/pending.py:196-228 -/
def moveRow (row : PendingSend) : Option State :=
  if h : row.id ∉ s.outbox.rows.map QueuedRow.id then
    some { s with
      pendingSends := s.pendingSends.erase row.id
      outbox := s.outbox.insert ⟨row.toOutbox, .pending⟩ h }
  else none

def commitMove (n : TxId) (batch : List PendingSend) : Option State :=
  (batch.foldlM moveRow s).map (·.finish n)

def commitCancel (n : TxId) (id : Uuid) : State :=
  { s.finish n with
    pendingSends := s.pendingSends.update (fun p => decide (p.id = id))
      (fun p => { p with cancelledAt := some s.now }) (fun _ => rfl) }

def setStatus (id : Uuid) (status : Status) : State :=
  { s with
    outbox := s.outbox.update (fun q => decide (q.id = id))
      (fun q => { q with status := status }) (fun _ => rfl) }

def commit (n : TxId) : Option State :=
  match s.txs n with
  | some (.create r (.recorded w)) => s.commitCreate n r w
  | some (.move batch) => s.commitMove n batch
  | some (.cancel id) => some (s.commitCancel n id)
  | _ => none

end State

def step (s : State) : Label → Option State
  | .tick elapsed => some { s with now := s.now + elapsed }
  | .setUndoSendSeconds seconds => some { s with undoSendSeconds := seconds }
  | .createOutbox n r => if s.txs n = none then some (s.setTx n (.create r .started)) else none
  | .lockKey n =>
    match s.txs n with
    | some (.create r .started) => s.lockKey n r
    | _ => none
  | .readSubmission n =>
    match s.txs n with
    | some (.create r (.keyLocked k)) => some (s.readSubmission n r k)
    | _ => none
  | .lockDraft n =>
    match s.txs n with
    | some (.create r .keyUnused) => s.lockDraft n r
    | _ => none
  | .readStaged n =>
    match s.txs n with
    | some (.create r (.draftLocked d)) => some (s.readStaged n r d)
    | _ => none
  | .readQueued n =>
    match s.txs n with
    | some (.create r (.draftNotStaged d)) => some (s.readQueued n r d)
    | _ => none
  | .insert n =>
    match s.txs n with
    | some (.create r .draftFree) => some (s.insert n r)
    | _ => none
  | .record n =>
    match s.txs n with
    | some (.create r (.inserted w)) => some (s.record n r w)
    | _ => none
  | .claimDue n => if s.txs n = none then some (s.claimDue n) else none
  | .cancel n id => if s.txs n = none then s.cancel n id else none
  | .commit n => s.commit n
  | .rollback n => if s.txs n = none then none else some (s.finish n)
  | .setStatus id status => some (s.setStatus id status)

/-- Nothing staged, queued or recorded, no transaction open. -/
def start : State where
  now := 0
  nextId := 0
  undoSendSeconds := 0
  pendingSends := KeyedTable.empty
  outbox := KeyedTable.empty
  submissions := KeyedTable.empty
  txs _ := none
  keyLock _ := none
  draftLock _ := none
  rowLock _ := none
  accepted := []

def system : TransitionSystem State Label where
  init s := s = start
  step := step

end MailVerdict.Model.SendRequests
