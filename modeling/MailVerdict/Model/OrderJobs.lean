import MailVerdict.Model.WorkQueue

/-!
# The orders queue and its write jobs

`order_jobs` is a work queue of three kinds of rows. A write job rewrites one order's
text; `uq_order_jobs_write` allows one pending write job for each order, so that
`enqueue_write_job` is a no-op while one waits. A second one may be enqueued while the
first is claimed. The statements of `work_queue.py` do not know the index: one that
would leave two pending write jobs for an order fails as a whole.

Changes to orders are transactions. A job of the worker holds the advisory lock from
its first statement to its commit; the endpoints and the account deletion do not take
it. A transaction enqueues before it commits, so a job it found pending may be claimed
and may have read the order by the time the change becomes visible. A row inserted by an
open transaction is marked with it: nobody sees it, but it occupies the index.

A change is counted (`version`), a job's read records the count it saw, and a written
text the count it was written from (`written`). The clock is the queue's; the count of
an order's mails and files is whatever the committed change recomputed.
-/

namespace MailVerdict.Model.OrderJobs

open MailVerdict.Computation
open Model.WorkQueue hiding Table State Label step start system claimBatch candidate
  heartbeat complete fail retry releaseUntouched releaseAllClaims reclaimExpired

abbrev TxId := ℕ

/-- SOURCE: database/models.py, `ck_order_jobs_kind` -/
inductive JobKind
  | mail
  | write
  | file
deriving DecidableEq

/-- A row of `order_jobs`: its kind, the order a write job names, the queue's columns,
and the open transaction that inserted it if it is not committed. -/
structure Job where
  row : Row
  kind : JobKind
  orderId : Option Uuid
  insertedBy : Option TxId
deriving DecidableEq

def Job.id (j : Job) : Uuid := j.row.id

abbrev Table := KeyedTable Job.id

def Job.waitsFor (o : Uuid) (j : Job) : Bool :=
  decide (j.kind = .write) && decide (j.row.status = .pending) && decide (j.orderId = some o)

/-- `uq_order_jobs_write`: an index entry for every pending write job.
SOURCE: database/models.py:2252-2262 -/
def indexKey (j : Job) : Option Uuid :=
  if j.kind = .write ∧ j.row.status = .pending then j.orderId else none

def uqOrderJobsWrite (t : Table) : Bool :=
  decide (t.rows.Pairwise fun a b => indexKey a = none ∨ indexKey a ≠ indexKey b)

/-- Whether a pending write job of the order is there, by a transaction that is open. -/
def waitsOn (t : Table) (o : Uuid) (n : TxId) : Bool :=
  t.rows.any fun j => j.waitsFor o && decide (j.insertedBy = some n)

/-- A queue statement: the rows it matches, rewritten. -/
def updateRows (t : Table) (p : Row → Bool) (f : Row → Row) (hf : ∀ r, (f r).id = r.id) : Table :=
  t.update (fun j => decide (j.insertedBy = none) && p j.row) (fun j => { j with row := f j.row })
    (fun j => hf j.row)

/-! ## The statements -/

theorem claim_id (now : Time) (workerId : WorkerId) (leaseSeconds : ℕ) (r : Row) :
    (r.claim now workerId leaseSeconds).id = r.id :=
  rfl

theorem lease_id (expires : Option Time) (r : Row) :
    ({ r with leaseExpiresAt := expires } : Row).id = r.id :=
  rfl

theorem unclaim_id (status : Status) (r : Row) :
    ({ r.unclaim with status := status } : Row).id = r.id :=
  rfl

theorem failed_id (lastError : Option String) (r : Row) :
    ({ r.unclaim with status := .failed, lastError := lastError } : Row).id = r.id :=
  rfl

/-- SOURCE: queue/work_queue.py:116-127 -/
def candidate (t : Table) (now : Time) (maxAttempts : Option ℕ) (batchSize : ℕ)
    (locked : List Uuid) : List Job :=
  ((t.rows.filter fun j => decide (j.insertedBy = none) && claimable now maxAttempts j.row &&
      !locked.contains j.id).insertionSort fun a b => claimOrder a.row b.row).take batchSize

/-- SOURCE: queue/work_queue.py:80-143 -/
def claimBatch (t : Table) (now : Time) (workerId : WorkerId) (batchSize leaseSeconds : ℕ)
    (maxAttempts : Option ℕ) (locked : List Uuid) : Table × List Job :=
  let claimed := candidate t now maxAttempts batchSize locked
  (updateRows t (fun r => (claimed.map Job.id).contains r.id) (Row.claim now workerId leaseSeconds)
      (claim_id now workerId leaseSeconds),
    claimed.map fun j => { j with row := j.row.claim now workerId leaseSeconds })

/-- SOURCE: queue/work_queue.py:145-176 -/
def heartbeat (t : Table) (now : Time) (ids : List Uuid) (workerId : WorkerId)
    (leaseSeconds : ℕ) : Table :=
  updateRows t (fun r => ids.contains r.id && r.heldBy workerId)
    (fun r => { r with leaseExpiresAt := some (now + leaseSeconds) })
    (lease_id (some (now + leaseSeconds)))

/-- SOURCE: queue/work_queue.py:178-206 -/
def complete (t : Table) (itemId : Uuid) (workerId : WorkerId) (status : Status) : Table :=
  updateRows t (fun r => decide (r.id = itemId) && r.heldBy workerId)
    (fun r => { r.unclaim with status := status }) (unclaim_id status)

/-- SOURCE: queue/work_queue.py:208-230 -/
def fail (t : Table) (itemId : Uuid) (workerId : WorkerId) (lastError : String) : Table :=
  updateRows t (fun r => decide (r.id = itemId) && r.heldBy workerId)
    (fun r => { r.unclaim with status := .failed, lastError := some lastError })
    (failed_id (some lastError))

/-- The statements that return rows to `pending`, as the rows each matches and what it
makes of them. -/
inductive Return
  | retry (itemId : Uuid) (workerId : WorkerId) (nextAttemptAt : Time) (lastError : Option String)
  | releaseUntouched (itemId : Uuid) (workerId : WorkerId)
  | releaseAllClaims (workerId : WorkerId)
  | reclaimExpired (now : Time)

/-- SOURCE: queue/work_queue.py:256-257, 285-286, 314, 345 -/
def Return.picks : Return → Row → Bool
  | .retry itemId workerId _ _, r => decide (r.id = itemId) && r.heldBy workerId
  | .releaseUntouched itemId workerId, r => decide (r.id = itemId) && r.heldBy workerId
  | .releaseAllClaims workerId, r => r.heldBy workerId
  | .reclaimExpired now, r => r.leaseExpired now

/-- SOURCE: queue/work_queue.py:252-255, 282-284, 311-313, 342-344 -/
def Return.rewrite : Return → Row → Row
  | .retry _ _ nextAttemptAt lastError, r =>
    { r.unclaim with
      status := .pending, nextAttemptAt := nextAttemptAt
      lastError := lastError.or r.lastError }
  | .releaseUntouched _ _, r => r.release
  | .releaseAllClaims _, r => r.release
  | .reclaimExpired _, r => r.reclaim

theorem Return.rewrite_id (op : Return) (r : Row) : (op.rewrite r).id = r.id := by
  cases op <;> rfl

theorem Return.rewrite_status (op : Return) (r : Row) : (op.rewrite r).status = .pending := by
  cases op <;> rfl

/-- What the statement would make of the table if there were no index. -/
def Return.table (op : Return) (t : Table) : Table :=
  updateRows t op.picks op.rewrite op.rewrite_id

inductive Outcome
  | done (t : Table)
  | waits
  | error

/-- The statement under the index: an entry it would add beside one of an open
transaction makes it wait, one beside a committed entry fails it.
SOURCE: queue/work_queue.py:232-356 -/
def Return.run (op : Return) (t : Table) : Outcome :=
  if uqOrderJobsWrite (op.table t) then .done (op.table t)
  else if t.rows.any fun j => decide (j.insertedBy ≠ none) && (op.table t).rows.any fun k =>
      decide (k.id ≠ j.id) && (indexKey j).isSome && decide (indexKey k = indexKey j) then .waits
  else .error

/-- Rows a claim of `enqueue_write_job` inserts: due now, priority and origin aside. -/
def freshJob (id : Uuid) (priority : ℤ) (now : Time) (o : Uuid) (n : TxId) : Job where
  row := freshRow id priority now now
  kind := .write
  orderId := some o
  insertedBy := some n

/-! ## Orders and transactions -/

/-- An order as the write job's first statement sees it, and how many changes it has
seen and was written from. -/
structure OrderRow where
  version : ℕ
  written : ℕ
  count : ℕ
  deleted : Bool

/-- An open transaction: whether it holds the advisory lock, and the orders it has
changed with the count it recomputed for each. -/
structure Tx where
  locked : Bool
  changed : Uuid → Option ℕ

inductive Holder
  | worker (workerId : WorkerId)
  | tx (n : TxId)
deriving DecidableEq

inductive Hand
  | idle
  | claimed (job : Job)
  | writing (job : Job) (orderId : Uuid) (version : ℕ)
  | gaveUp (job : Job)
  | finished (job : Job)

/-- Whether the handling of a job has read its order. -/
def Hand.hasRead (h : Hand) (id : Uuid) : Bool :=
  match h with
  | .writing job _ _ | .finished job => decide (job.id = id)
  | .idle | .claimed _ | .gaveUp _ => false

structure State where
  now : Time
  nextId : Uuid
  jobs : Table
  order : Uuid → OrderRow
  txs : TxId → Option Tx
  rowLock : Uuid → Option TxId
  lock : Option Holder
  hand : WorkerId → Hand
  failures : ℕ

inductive Label
  | tick (elapsed : ℕ)
  | enqueueOther (kind : JobKind) (priority : ℤ) (nextAttemptAt : Time)
  | begin (n : TxId) (locked : Bool)
  | change (n : TxId) (o : Uuid) (count : ℕ) (priority : ℤ)
  | enqueue (n : TxId) (o : Uuid) (priority : ℤ)
  | commit (n : TxId)
  | abort (n : TxId)
  | deleteOrder (o : Uuid)
  | claim (workerId : WorkerId) (leaseSeconds : ℕ) (locked : List Uuid)
  | heartbeat (workerId : WorkerId) (ids : List Uuid) (leaseSeconds : ℕ)
  | read (workerId : WorkerId)
  | decided (workerId : WorkerId)
  | rollback (workerId : WorkerId)
  | commitWrite (workerId : WorkerId)
  | complete (workerId : WorkerId)
  | fail (workerId : WorkerId) (error : String)
  | retry (workerId : WorkerId) (nextAttemptAt : Time) (error : String)
  | releaseUntouched (workerId : WorkerId)
  | releaseAllClaims (workerId : WorkerId)
  | reclaimExpired
  | crash (workerId : WorkerId)

namespace State

variable (s : State)

/-- `enqueue_write_job`: nothing while a pending one is there, a wait while it is another
transaction's.
SOURCE: orders/repository.py:285-306 -/
def enqueueWriteJob (n : TxId) (o : Uuid) (priority : ℤ) : Option State :=
  if s.jobs.rows.any fun j => j.waitsFor o && decide (j.insertedBy ≠ none) &&
      decide (j.insertedBy ≠ some n) then none
  else if s.jobs.rows.any (Job.waitsFor o) then some s
  else if h : s.nextId ∉ s.jobs.rows.map Job.id then
    some { s with
      nextId := s.nextId + 1
      jobs := s.jobs.insert (freshJob s.nextId priority s.now o n) h }
  else none

/-- The advisory lock goes with the transaction that holds it. -/
def unlock (h : Holder) : Option Holder := if s.lock = some h then none else s.lock

/-- The row locks of a transaction go with it. -/
def releaseRows (n : TxId) (o : Uuid) : Option TxId :=
  if s.rowLock o = some n then none else s.rowLock o

def changedOrder (tx : Tx) (o : Uuid) : OrderRow :=
  match tx.changed o with
  | none => s.order o
  | some count => { s.order o with version := (s.order o).version + 1, count := count }

def commit (n : TxId) (tx : Tx) : State :=
  { s with
    jobs := s.jobs.update (fun j => decide (j.insertedBy = some n))
      (fun j => { j with insertedBy := none }) (fun _ => rfl)
    order := s.changedOrder tx
    txs := Function.update s.txs n none
    rowLock := s.releaseRows n
    lock := s.unlock (.tx n) }

def abort (n : TxId) : State :=
  { s with
    jobs := s.jobs.filter fun j => decide (j.insertedBy ≠ some n)
    txs := Function.update s.txs n none
    rowLock := s.releaseRows n
    lock := s.unlock (.tx n) }

/-- Claim one row, the batch size of the orders worker.
SOURCE: orders/worker.py:116-120 -/
def claim (maxAttempts : ℕ) (workerId : WorkerId) (leaseSeconds : ℕ) (locked : List Uuid) : State :=
  let (jobs, claimed) := claimBatch s.jobs s.now workerId 1 leaseSeconds (some maxAttempts) locked
  { s with
    jobs := jobs
    hand := Function.update s.hand workerId (match claimed with
      | [] => .idle
      | job :: _ => .claimed job) }

def setHand (workerId : WorkerId) (h : Hand) : State :=
  { s with hand := Function.update s.hand workerId h }

/-- The first statement of a write job: gone or empty, there is nothing to write.
SOURCE: orders/worker.py:638-651 -/
def read (workerId : WorkerId) (job : Job) (o : Uuid) : State :=
  if (s.order o).deleted || decide ((s.order o).count = 0) then
    s.setHand workerId (.finished job)
  else
    { s with
      lock := some (.worker workerId)
      hand := Function.update s.hand workerId (.writing job o (s.order o).version) }

/-- `write_order_text` and the commit: nothing for an order that is gone.
SOURCE: orders/worker.py:719-738, orders/repository.py:346-367 -/
def commitWrite (workerId : WorkerId) (job : Job) (o : Uuid) (version : ℕ) : State :=
  { s with
    order := Function.update s.order o { s.order o with written := version }
    lock := s.unlock (.worker workerId)
    hand := Function.update s.hand workerId (.finished job) }

/-- The hands after an error or a statement ended one worker's handling. -/
def dismissed : Option WorkerId → WorkerId → Hand
  | none => s.hand
  | some w => Function.update s.hand w .idle

/-- A statement that returns rows: done, waiting (no step), or an error that ends the
worker which made it. -/
def returned (op : Return) (workerId : Option WorkerId) : Option State :=
  match op.run s.jobs with
  | .done jobs => some { s with jobs := jobs, hand := s.dismissed workerId }
  | .waits => none
  | .error => some { s with hand := s.dismissed workerId, failures := s.failures + 1 }

end State

/-- One step. The order's row lock makes a second change, the write of its text and its
deletion wait for an open transaction that has changed it. -/
def step (maxAttempts : ℕ) (s : State) : Label → Option State
  | .tick elapsed => some { s with now := s.now + elapsed }
  | .enqueueOther kind priority nextAttemptAt =>
    if h : s.nextId ∉ s.jobs.rows.map Job.id then
      if kind = .write then none
      else some { s with
        nextId := s.nextId + 1
        jobs := s.jobs.insert
          ⟨freshRow s.nextId priority nextAttemptAt s.now, kind, none, none⟩ h }
    else none
  | .begin n locked =>
    if s.txs n = none ∧ (locked = true → s.lock = none) then
      some { s with
        txs := Function.update s.txs n (some ⟨locked, fun _ => none⟩)
        lock := if locked then some (.tx n) else s.lock }
    else none
  | .change n o count priority =>
    match s.txs n with
    | none => none
    | some tx =>
      if (s.order o).deleted = false ∧ (s.rowLock o = none ∨ s.rowLock o = some n) then
        { s with
          txs := Function.update s.txs n
            (some { tx with changed := Function.update tx.changed o (some count) })
          rowLock := Function.update s.rowLock o (some n)
          : State }.enqueueWriteJob n o priority
      else none
  | .enqueue n o priority =>
    match s.txs n with
    | none => none
    | some _ => s.enqueueWriteJob n o priority
  | .commit n => (s.txs n).map (s.commit n)
  | .abort n => (s.txs n).map fun _ => s.abort n
  | .deleteOrder o =>
    if s.rowLock o = none then
      some { s with
        jobs := s.jobs.filter fun j =>
          !(decide (j.kind = .write) && decide (j.orderId = some o) && decide (j.insertedBy = none))
        order := Function.update s.order o { s.order o with deleted := true } }
    else none
  | .claim workerId leaseSeconds locked =>
    match s.hand workerId with
    | .idle => some (s.claim maxAttempts workerId leaseSeconds locked)
    | _ => none
  | .heartbeat workerId ids leaseSeconds =>
    some { s with jobs := OrderJobs.heartbeat s.jobs s.now ids workerId leaseSeconds }
  | .read workerId =>
    match s.hand workerId with
    | .claimed job =>
      match job.kind, job.orderId with
      | .write, some o => if s.lock = none then some (s.read workerId job o) else none
      | _, _ => none
    | _ => none
  | .decided workerId =>
    match s.hand workerId with
    | .claimed job => if job.kind = .write then none else some (s.setHand workerId (.finished job))
    | _ => none
  | .rollback workerId =>
    match s.hand workerId with
    | .claimed job => some (s.setHand workerId (.gaveUp job))
    | .writing job _ _ =>
      some { s with
        lock := s.unlock (.worker workerId)
        hand := Function.update s.hand workerId (.gaveUp job) }
    | _ => none
  | .commitWrite workerId =>
    match s.hand workerId with
    | .writing job o version =>
      if s.rowLock o = none then
        some (s.commitWrite workerId job o version)
      else none
    | _ => none
  | .complete workerId =>
    match s.hand workerId with
    | .finished job =>
      some { s with
        jobs := OrderJobs.complete s.jobs job.id workerId .done
        hand := Function.update s.hand workerId .idle }
    | _ => none
  | .fail workerId error =>
    match s.hand workerId with
    | .gaveUp job =>
      some { s with
        jobs := OrderJobs.fail s.jobs job.id workerId error
        hand := Function.update s.hand workerId .idle }
    | _ => none
  | .retry workerId nextAttemptAt error =>
    match s.hand workerId with
    | .gaveUp job => s.returned (.retry job.id workerId nextAttemptAt (some error)) (some workerId)
    | _ => none
  | .releaseUntouched workerId =>
    match s.hand workerId with
    | .gaveUp job | .claimed job => s.returned (.releaseUntouched job.id workerId) (some workerId)
    | _ => none
  | .releaseAllClaims workerId =>
    match s.hand workerId with
    | .idle => s.returned (.releaseAllClaims workerId) none
    | _ => none
  | .reclaimExpired => s.returned (.reclaimExpired s.now) none
  | .crash workerId =>
    some { s with
      lock := s.unlock (.worker workerId)
      hand := Function.update s.hand workerId .idle }

def start : State where
  now := 0
  nextId := 0
  jobs := KeyedTable.empty
  order := fun _ => ⟨0, 0, 0, false⟩
  txs := fun _ => none
  rowLock := fun _ => none
  lock := none
  hand := fun _ => .idle
  failures := 0

def system (maxAttempts : ℕ) : TransitionSystem State Label where
  init s := s = start
  step := step maxAttempts

end MailVerdict.Model.OrderJobs
