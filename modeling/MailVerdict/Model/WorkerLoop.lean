import MailVerdict.Model.WorkQueue

/-!
# Workers over a queue

`default_worker_loop` (`queue/worker_loop.py`) claims a batch, hands its rows to `handle_item`
one after the other, and on a stop request gives back what it has not handed over yet. What
`handle_item` does with a row is any sequence of the queue's own calls about it, or none. The
statements are those of `WorkQueue`; one step is one committed statement, or a worker moving on.

A worker is its name: the supervisor makes up a new one for every worker it starts, so the name
of one that is gone is not used again. A call under way when its worker dies may still commit.

`claimNo`, `madeBy`, `takenBy`, `claims` and `refunds` are the record of what was claimed: the
claims so far and who made each, the one that took a row last, and how often a row was claimed
and refunded. No statement reads them.
-/

namespace MailVerdict.Model.WorkerLoop

open MailVerdict.Computation Model.WorkQueue

/-- Where a worker is in its loop, under the claim of its batch. -/
structure Worker where
  claim : ℕ
  waiting : List Row
  current : Option Row
  stopping : Bool
  gone : Bool

/-- The rows a worker was handed and has not handled. -/
def Worker.copies (w : Worker) : List Row := w.current.toList ++ w.waiting

def Worker.fresh : Worker := ⟨0, [], none, false, false⟩

structure State where
  now : Time
  table : Table
  workers : WorkerId → Worker
  claimNo : ℕ
  madeBy : ℕ → Option WorkerId
  takenBy : Uuid → ℕ
  claims : Uuid → ℕ
  refunds : Uuid → ℕ

/-- A call `handle_item` makes about its row. -/
inductive Call
  | complete (status : Status)
  | fail (lastError : String)
  | retry (nextAttemptAt : Time) (lastError : Option String)
  | retryOrFail (maxAttempts : ℕ) (nextAttemptAt : Time) (error : String)
  | releaseUntouched

inductive Label
  | tick (elapsed : ℕ)
  | enqueue (id : Uuid) (priority : ℤ) (nextAttemptAt : Time)
  | claimBatch (workerId : WorkerId) (batchSize leaseSeconds : ℕ) (maxAttempts : Option ℕ)
      (locked : List Uuid)
  | handle (workerId : WorkerId)
  | heartbeat (workerId : WorkerId) (id : Uuid) (leaseSeconds : ℕ)
  | call (workerId : WorkerId) (c : Call)
  | handled (workerId : WorkerId)
  | stop (workerId : WorkerId)
  | giveBack (workerId : WorkerId)
  | releaseAllClaims (workerId : WorkerId)
  | crash (workerId : WorkerId)
  | reclaimExpired

def Label.isClaim : Label → Bool
  | .claimBatch .. => true
  | _ => false

/-- The worker whose completion, failure, retry or release a step is. -/
def Label.decidedBy : Label → Option WorkerId
  | .call workerId _ | .giveBack workerId | .releaseAllClaims workerId => some workerId
  | _ => none

/-- The table after a call of a worker about a row; `row` is the worker's copy. -/
def callTable (t : Table) (workerId : WorkerId) (row : Row) : Call → Table
  | .complete status => complete t row.id workerId status
  | .fail lastError => fail t row.id workerId lastError
  | .retry nextAttemptAt lastError => retry t row.id workerId nextAttemptAt lastError
  | .retryOrFail maxAttempts nextAttemptAt error =>
    if maxAttempts ≤ row.attempts then fail t row.id workerId error
    else retry t row.id workerId nextAttemptAt (some error)
  | .releaseUntouched => releaseUntouched t row.id workerId

/-- A row is completed with a terminal status, which `failed` is not passed as. -/
def Call.admissible : Call → Bool
  | .complete status => status.terminal && decide (status ≠ .failed)
  | _ => true

def Call.refunds : Call → Bool
  | .releaseUntouched => true
  | _ => false

/-- The refunds after the rows `p` picks were given back. -/
def refunded (s : State) (p : Row → Bool) (id : Uuid) : ℕ :=
  s.refunds id + if s.table.rows.any fun r => decide (r.id = id) && p r then 1 else 0

def State.setWorker (s : State) (workerId : WorkerId) (w : Worker) : State :=
  { s with workers := Function.update s.workers workerId w }

/-- SOURCE: queue/worker_loop.py:92-167, queue/supervisor.py:136-149 -/
def step (s : State) : Label → Option State
  | .tick elapsed => some { s with now := s.now + elapsed }
  | .enqueue id priority nextAttemptAt =>
    if h : id ∉ s.table.rows.map Row.id then
      some { s with table := s.table.insert (freshRow id priority nextAttemptAt s.now) h }
    else none
  | .claimBatch workerId batchSize leaseSeconds maxAttempts locked =>
    let w := s.workers workerId
    if w.gone = false ∧ w.stopping = false ∧ w.waiting = [] ∧ w.current = none then
      let ids := (candidate s.table s.now maxAttempts batchSize locked).map Row.id
      let (table, claimed) :=
        claimBatch s.table s.now workerId batchSize leaseSeconds maxAttempts locked
      some
        { s with
          table := table
          workers := Function.update s.workers workerId
            { w with claim := s.claimNo + 1, waiting := claimed }
          claimNo := s.claimNo + 1
          madeBy := Function.update s.madeBy (s.claimNo + 1) (some workerId)
          takenBy := fun id => if id ∈ ids then s.claimNo + 1 else s.takenBy id
          claims := fun id => if id ∈ ids then s.claims id + 1 else s.claims id }
    else none
  | .handle workerId =>
    let w := s.workers workerId
    match w.waiting with
    | [] => none
    | row :: rest =>
      if w.gone = false ∧ w.stopping = false ∧ w.current = none then
        some (s.setWorker workerId { w with waiting := rest, current := some row })
      else none
  | .heartbeat workerId id leaseSeconds =>
    some { s with table := heartbeat s.table s.now [id] workerId leaseSeconds }
  | .call workerId c =>
    match (s.workers workerId).current with
    | none => none
    | some row =>
      if c.admissible then
        some
          { s with
            table := callTable s.table workerId row c
            refunds :=
              if c.refunds then
                refunded s fun r => decide (r.id = row.id) && r.heldBy workerId
              else s.refunds }
      else none
  | .handled workerId =>
    let w := s.workers workerId
    if w.gone = false then some (s.setWorker workerId { w with current := none }) else none
  | .stop workerId =>
    some (s.setWorker workerId { s.workers workerId with stopping := true })
  | .giveBack workerId =>
    let w := s.workers workerId
    match w.waiting with
    | [] => none
    | row :: rest =>
      if w.gone = false ∧ w.stopping = true ∧ w.current = none then
        some
          { s.setWorker workerId { w with waiting := rest } with
            table := releaseUntouched s.table row.id workerId
            refunds := refunded s fun r => decide (r.id = row.id) && r.heldBy workerId }
      else none
  | .releaseAllClaims workerId =>
    some
      { s with
        table := releaseAllClaims s.table workerId
        refunds := refunded s (Row.heldBy workerId) }
  | .crash workerId => some (s.setWorker workerId { s.workers workerId with gone := true })
  | .reclaimExpired => some { s with table := reclaimExpired s.table s.now }

/-- An empty table, and workers that have claimed nothing. -/
def start : State :=
  ⟨0, KeyedTable.empty, fun _ => Worker.fresh, 0, fun _ => none, fun _ => 0, fun _ => 0, fun _ => 0⟩

def system : TransitionSystem State Label where
  init s := s = start
  step := step

end MailVerdict.Model.WorkerLoop
