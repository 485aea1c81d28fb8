import MailVerdict.Computation.KeyedTable
import MailVerdict.Computation.TransitionSystem
import Mathlib.Data.List.Sort

/-!
# The work queues

`queue/work_queue.py` claims, leases and releases rows of one table; the
pipeline, embedding and webhook queues are three such tables. The table is the
queue: there is no second structure to disagree with it.

Each statement of the source is one definition on a table (`claimBatch`,
`heartbeat`, `complete`, `fail`, `retry`, `releaseUntouched`, `releaseAllClaims`,
`reclaimExpired`), and one step of the system is one committed statement of one
worker. A worker keeps the rows a claim returned until it has handled each of
them: `retry_or_fail` decides on that copy's `attempts`, not on the table's. A
crash forgets the copies and leaves the table alone.

Rows `FOR UPDATE SKIP LOCKED` passes over are named by the label, so any outcome
of concurrent claims is a run. The attempt cap is a constant of a queue; the source
reads `max_attempts` from the settings anew in every cycle.
-/

namespace MailVerdict.Model.WorkQueue

open MailVerdict.Computation

abbrev Time := ℕ

abbrev Uuid := ℕ

abbrev WorkerId := String

/-- The status names the queues use. `pending` and `claimed` are the engine's
own, the others their callers' terminal ones.
SOURCE: queue/work_queue.py:12-26 -/
inductive Status
  | pending
  | claimed
  | done
  | skipped
  | failed
  | cancelled
deriving DecidableEq

def Status.terminal : Status → Bool
  | .pending | .claimed => false
  | .done | .skipped | .failed | .cancelled => true

/-- The columns `WorkQueue` requires of a table.
SOURCE: queue/work_queue.py:45-48 -/
structure Row where
  id : Uuid
  status : Status
  priority : ℤ
  nextAttemptAt : Time
  createdAt : Time
  claimedBy : Option WorkerId
  claimedAt : Option Time
  leaseExpiresAt : Option Time
  attempts : ℕ
  lastError : Option String
deriving DecidableEq

abbrev Table := KeyedTable Row.id

/-! ## The statements of `work_queue.py` -/

/-- The claim's filter.
SOURCE: queue/work_queue.py:117-123 -/
def claimable (now : Time) (maxAttempts : Option ℕ) (r : Row) : Bool :=
  decide (r.status = .pending) && decide (r.nextAttemptAt ≤ now) &&
    match maxAttempts with
    | none => true
    | some m => decide (r.attempts < m)

/-- `ORDER BY priority, next_attempt_at, created_at`. -/
def claimOrder (a b : Row) : Prop :=
  a.priority < b.priority ∨ (a.priority = b.priority ∧
    (a.nextAttemptAt < b.nextAttemptAt ∨ (a.nextAttemptAt = b.nextAttemptAt ∧
      a.createdAt ≤ b.createdAt)))

instance : DecidableRel claimOrder := fun a b => by
  unfold claimOrder; infer_instance

/-- The rows a claim picks: due, below the cap, not locked by another claim, the
first `batchSize` of them in claim order.
SOURCE: queue/work_queue.py:116-127 -/
def candidate (t : Table) (now : Time) (maxAttempts : Option ℕ) (batchSize : ℕ)
    (locked : List Uuid) : List Row :=
  ((t.rows.filter fun r => claimable now maxAttempts r && !locked.contains r.id).insertionSort
    claimOrder).take batchSize

/-- A row as a claim rewrites it. `attempts` is spent here.
SOURCE: queue/work_queue.py:128-132 -/
def Row.claim (now : Time) (workerId : WorkerId) (leaseSeconds : ℕ) (r : Row) : Row :=
  { r with
    status := .claimed, claimedBy := some workerId, claimedAt := some now
    leaseExpiresAt := some (now + leaseSeconds), attempts := r.attempts + 1 }

/-- Claim up to `batchSize` rows: the new table, and the claimed rows as
returned.
SOURCE: queue/work_queue.py:80-143 -/
def claimBatch (t : Table) (now : Time) (workerId : WorkerId) (batchSize leaseSeconds : ℕ)
    (maxAttempts : Option ℕ) (locked : List Uuid) : Table × List Row :=
  let ids := (candidate t now maxAttempts batchSize locked).map Row.id
  (t.update (fun r => ids.contains r.id) (Row.claim now workerId leaseSeconds) (fun _ => rfl),
    (candidate t now maxAttempts batchSize locked).map (Row.claim now workerId leaseSeconds))

/-- `status = 'claimed' AND claimed_by = :worker_id`, the guard of every
statement a worker makes about a row it holds. -/
def Row.heldBy (workerId : WorkerId) (r : Row) : Bool :=
  decide (r.status = .claimed) && decide (r.claimedBy = some workerId)

/-- The three claim columns set to `NULL`. -/
def Row.unclaim (r : Row) : Row :=
  { r with claimedBy := none, claimedAt := none, leaseExpiresAt := none }

/-- SOURCE: queue/work_queue.py:145-176 -/
def heartbeat (t : Table) (now : Time) (ids : List Uuid) (workerId : WorkerId)
    (leaseSeconds : ℕ) : Table :=
  t.update (fun r => ids.contains r.id && r.heldBy workerId)
    (fun r => { r with leaseExpiresAt := some (now + leaseSeconds) }) (fun _ => rfl)

/-- SOURCE: queue/work_queue.py:178-206 -/
def complete (t : Table) (itemId : Uuid) (workerId : WorkerId) (status : Status) : Table :=
  t.update (fun r => decide (r.id = itemId) && r.heldBy workerId)
    (fun r => { r.unclaim with status := status }) (fun _ => rfl)

/-- SOURCE: queue/work_queue.py:208-234, embeddings/repository.py:538-593 -/
def fail (t : Table) (itemId : Uuid) (workerId : WorkerId) (lastError : String) : Table :=
  t.update (fun r => decide (r.id = itemId) && r.heldBy workerId)
    (fun r => { r.unclaim with status := .failed, lastError := some lastError }) (fun _ => rfl)

/-- Return a claimed row to `pending`; the attempt stays counted.
SOURCE: queue/work_queue.py:236-271 -/
def retry (t : Table) (itemId : Uuid) (workerId : WorkerId) (nextAttemptAt : Time)
    (lastError : Option String) : Table :=
  t.update (fun r => decide (r.id = itemId) && r.heldBy workerId)
    (fun r => { r.unclaim with
      status := .pending, nextAttemptAt := nextAttemptAt
      lastError := lastError.or r.lastError }) (fun _ => rfl)

/-- A released row: `pending` again, its attempt refunded. -/
def Row.release (r : Row) : Row :=
  { r.unclaim with status := .pending, attempts := r.attempts - 1 }

/-- SOURCE: queue/work_queue.py:273-301 -/
def releaseUntouched (t : Table) (itemId : Uuid) (workerId : WorkerId) : Table :=
  t.update (fun r => decide (r.id = itemId) && r.heldBy workerId) Row.release (fun _ => rfl)

/-- SOURCE: queue/work_queue.py:303-324 -/
def releaseAllClaims (t : Table) (workerId : WorkerId) : Table :=
  t.update (Row.heldBy workerId) Row.release (fun _ => rfl)

/-- `status = 'claimed' AND lease_expires_at < now()`. -/
def Row.leaseExpired (now : Time) (r : Row) : Bool :=
  decide (r.status = .claimed) && match r.leaseExpiresAt with
    | some e => decide (e < now)
    | none => false

/-- An expired row as a reclaim rewrites it: its attempts stay spent. -/
def Row.reclaim (r : Row) : Row := { r.unclaim with status := .pending }

/-- Return every expired row to `pending` without looking at `attempts`.
SOURCE: queue/work_queue.py:326-356 -/
def reclaimExpired (t : Table) (now : Time) : Table :=
  t.update (Row.leaseExpired now) Row.reclaim (fun _ => rfl)

/-- `_push_next_attempt`.
SOURCE: pipeline/runner.py:411-419 -/
def pushNextAttempt (t : Table) (itemId : Uuid) (nextAttemptAt : Time) : Table :=
  t.update (fun r => decide (r.id = itemId) && decide (r.status = .pending))
    (fun r => { r with nextAttemptAt := nextAttemptAt }) (fun _ => rfl)

/-- A failed run queued again with all its attempts. -/
def Row.restart (now : Time) (r : Row) : Row :=
  { r with status := .pending, attempts := 0, lastError := none, nextAttemptAt := now }

/-- `POST /runs/{id}/retry`.
SOURCE: api/runs.py:84-105 -/
def retryRun (t : Table) (now : Time) (itemId : Uuid) : Table :=
  t.update (fun r => decide (r.id = itemId) && decide (r.status = .failed))
    (Row.restart now) (fun _ => rfl)

/-- `fail_exhausted_deliveries`, the sweep only the webhook queue has.
SOURCE: webhooks/worker.py:188-223 -/
def failExhausted (t : Table) (maxAttempts : ℕ) (reason : String) : Table :=
  t.update (fun r => decide (r.status = .pending) && decide (maxAttempts ≤ r.attempts))
    (fun r => { r with status := .failed, lastError := some reason }) (fun _ => rfl)

/-! ## The queues as systems -/

/-- The queues built on `WorkQueue` with an attempt cap. -/
inductive QueueName
  | pipeline
  | embeddings
  | webhooks
deriving DecidableEq

/-- A queue and its `max_attempts` setting. -/
structure Queue where
  name : QueueName
  maxAttempts : ℕ

/-- The table, the clock, and the claimed rows each worker has yet to handle. -/
structure State where
  now : Time
  table : Table
  held : WorkerId → List Row

/-- One committed statement, a crash, or the clock advancing. -/
inductive Label
  | tick (elapsed : ℕ)
  | enqueue (id : Uuid) (priority : ℤ) (nextAttemptAt : Time)
  | claimBatch (workerId : WorkerId) (batchSize leaseSeconds : ℕ) (locked : List Uuid)
  | heartbeat (workerId : WorkerId) (ids : List Uuid) (leaseSeconds : ℕ)
  | complete (workerId : WorkerId) (itemId : Uuid) (status : Status)
  | fail (workerId : WorkerId) (itemId : Uuid) (lastError : String)
  | retryOrFail (workerId : WorkerId) (itemId : Uuid) (nextAttemptAt : Time) (error : String)
  | releaseUntouched (workerId : WorkerId) (itemId : Uuid)
  | releaseAllClaims (workerId : WorkerId)
  | pushNextAttempt (itemId : Uuid) (nextAttemptAt : Time)
  | reclaimExpired
  | crash (workerId : WorkerId)
  | retryRun (itemId : Uuid)
  | failExhausted (reason : String)

/-- The copy of a row a worker was handed and has not handled yet. -/
def State.heldRow (s : State) (workerId : WorkerId) (itemId : Uuid) : Option Row :=
  (s.held workerId).find? fun r => decide (r.id = itemId)

def State.handled (s : State) (workerId : WorkerId) (itemId : Uuid) (table : Table) : State :=
  { s with
    table := table
    held := Function.update s.held workerId
      ((s.held workerId).filter fun r => !decide (r.id = itemId)) }

def freshRow (id : Uuid) (priority : ℤ) (nextAttemptAt createdAt : Time) : Row where
  id := id
  status := .pending
  priority := priority
  nextAttemptAt := nextAttemptAt
  createdAt := createdAt
  claimedBy := none
  claimedAt := none
  leaseExpiresAt := none
  attempts := 0
  lastError := none

/-- The retry-or-fail decision on the claimed row's own copy.
SOURCE: pipeline/runner.py:421-438, embeddings/worker.py:486-534, webhooks/worker.py:167-186 -/
def retryOrFail (q : Queue) (t : Table) (row : Row) (workerId : WorkerId) (nextAttemptAt : Time)
    (error : String) : Table :=
  if q.maxAttempts ≤ row.attempts then fail t row.id workerId error
  else retry t row.id workerId nextAttemptAt (some error)

/-- One step. A worker claims only when it has handled its last batch
(`default_worker_loop` is sequential) and decides only rows it holds; the
pipeline alone has `retryRun` and `pushNextAttempt`, the webhook queue alone the
sweep of exhausted rows.
SOURCE: queue/worker_loop.py:93-167 -/
def step (q : Queue) (s : State) : Label → Option State
  | .tick elapsed => some { s with now := s.now + elapsed }
  | .enqueue id priority nextAttemptAt =>
    if h : id ∉ s.table.rows.map Row.id then
      some { s with table := s.table.insert (freshRow id priority nextAttemptAt s.now) h }
    else none
  | .claimBatch workerId batchSize leaseSeconds locked =>
    if s.held workerId = [] then
      let (table, claimed) :=
        claimBatch s.table s.now workerId batchSize leaseSeconds (some q.maxAttempts) locked
      some { s with table := table, held := Function.update s.held workerId claimed }
    else none
  | .heartbeat workerId ids leaseSeconds =>
    some { s with table := heartbeat s.table s.now ids workerId leaseSeconds }
  | .complete workerId itemId status =>
    if status.terminal ∧ status ≠ .failed ∧ (s.heldRow workerId itemId).isSome then
      some (s.handled workerId itemId (complete s.table itemId workerId status))
    else none
  | .fail workerId itemId lastError =>
    if (s.heldRow workerId itemId).isSome then
      some (s.handled workerId itemId (fail s.table itemId workerId lastError))
    else none
  | .retryOrFail workerId itemId nextAttemptAt error =>
    (s.heldRow workerId itemId).map fun row =>
      s.handled workerId itemId (retryOrFail q s.table row workerId nextAttemptAt error)
  | .releaseUntouched workerId itemId =>
    if (s.heldRow workerId itemId).isSome then
      some (s.handled workerId itemId (releaseUntouched s.table itemId workerId))
    else none
  | .releaseAllClaims workerId =>
    some { s with
      table := releaseAllClaims s.table workerId
      held := Function.update s.held workerId [] }
  | .pushNextAttempt itemId nextAttemptAt =>
    if q.name = .pipeline then
      some { s with table := pushNextAttempt s.table itemId nextAttemptAt }
    else none
  | .reclaimExpired => some { s with table := reclaimExpired s.table s.now }
  | .crash workerId => some { s with held := Function.update s.held workerId [] }
  | .retryRun itemId =>
    if q.name = .pipeline then some { s with table := retryRun s.table s.now itemId } else none
  | .failExhausted reason =>
    if q.name = .webhooks then
      some { s with table := failExhausted s.table q.maxAttempts reason }
    else none

/-- An empty table and no worker holding anything. -/
def start : State := ⟨0, KeyedTable.empty, fun _ => []⟩

def system (q : Queue) : TransitionSystem State Label where
  init s := s = start
  step := step q

/-- A reached row opens the pipeline gate an embedding holds.
SOURCE: embeddings/repository.py:477-593 -/
def gateOpen (r : Row) : Bool := decide (r.status = .done) || decide (r.status = .failed)

end MailVerdict.Model.WorkQueue
