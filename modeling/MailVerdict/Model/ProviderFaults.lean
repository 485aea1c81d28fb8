import MailVerdict.Model.WorkQueue

/-!
# Provider-level faults

A worker whose provider is down or rate limiting gives its row back and asks for
a later attempt. These are two committed statements: `release_untouched` ends the
claim and refunds the attempt, then the orders worker calls `retry`, which is
fenced on the claim, and the pipeline worker `_push_next_attempt`, which is fenced
on `pending`. Any other worker's statement may fall between the two.

`postpone` is the second statement of either queue; the system below is the queue's
life with faults met at any time. `claims`, `met` and `ended` record what happened:
no step reads them.
-/

namespace MailVerdict.Model.ProviderFaults

open MailVerdict.Computation
open Model.WorkQueue hiding State Label step start system

/-- The queues whose worker answers provider-level faults. -/
inductive FaultQueue
  | orders
  | pipeline
deriving DecidableEq

/-- `StageUnavailable` and `StageThrottled`.
SOURCE: pipeline/contracts.py:173-184 -/
inductive StageFault
  | unavailable (message : String)
  | throttled (message : String) (retryAfter : Option Time)

def StageFault.message : StageFault → String
  | .unavailable message => message
  | .throttled message _ => message

/-- `_DEFAULT_UNAVAILABLE_DELAY_S`.
SOURCE: orders/worker.py:86, pipeline/runner.py:85 -/
def defaultUnavailableDelay : Time := 60

structure Settings where
  maxAttempts : ℕ
  unavailableProbeSeconds : Time

/-- The delay a fault asks for; a `retry_after` of zero is falsy.
SOURCE: orders/worker.py:156-169, pipeline/runner.py:262-274 -/
def delayOf (q : FaultQueue) (cfg : Settings) : StageFault → Time
  | .unavailable _ =>
    match q with
    | .orders => defaultUnavailableDelay
    | .pipeline => cfg.unavailableProbeSeconds
  | .throttled _ none => defaultUnavailableDelay
  | .throttled _ (some retryAfter) =>
    if retryAfter = 0 then defaultUnavailableDelay else retryAfter

/-- The statement that follows the release.
SOURCE: orders/worker.py:158-161, 166-168, pipeline/runner.py:265, 273 -/
def postpone (q : FaultQueue) (t : Table) (itemId : Uuid) (workerId : WorkerId)
    (nextAttemptAt : Time) (error : String) : Table :=
  match q with
  | .orders => retry t itemId workerId nextAttemptAt (some error)
  | .pipeline => pushNextAttempt t itemId nextAttemptAt

/-- A fault as a worker meets it: the row, the count and the error it had, what is
asked for, and how many claims had been made by then. -/
structure Fault where
  workerId : WorkerId
  itemId : Uuid
  attempts : ℕ
  lastError : Option String
  metAt : Time
  delay : Time
  error : String
  since : ℕ

/-- The time before which the row is not to be tried again. -/
def Fault.notBefore (f : Fault) : Time := f.metAt + f.delay

/-- What a worker is doing: both queues claim one row at a time. -/
inductive Hand
  | idle
  | working (row : Row)
  | answering (fault : Fault)

structure Claim where
  time : Time
  itemId : Uuid

structure State where
  now : Time
  nextId : Uuid
  table : Table
  hand : WorkerId → Hand
  claims : List Claim
  met : List Fault
  ended : List (Fault × Option Row)

/-- One committed statement, a crash, or the clock advancing. -/
inductive Label
  | tick (elapsed : ℕ)
  | enqueue (priority : ℤ) (nextAttemptAt : Time)
  | claimBatch (workerId : WorkerId) (leaseSeconds : ℕ) (locked : List Uuid)
  | heartbeat (workerId : WorkerId) (ids : List Uuid) (leaseSeconds : ℕ)
  | complete (workerId : WorkerId) (status : Status)
  | fail (workerId : WorkerId) (error : String)
  | retryOrFail (workerId : WorkerId) (nextAttemptAt : Time) (error : String)
  | fault (workerId : WorkerId) (fault : StageFault)
  | postpone (workerId : WorkerId)
  | releaseUntouched (workerId : WorkerId)
  | releaseAllClaims (workerId : WorkerId)
  | reclaimExpired
  | crash (workerId : WorkerId)
  | remove (id : Uuid)
  | retryRun (id : Uuid)

namespace State

variable (s : State)

def handled (workerId : WorkerId) (table : Table) : State :=
  { s with table := table, hand := Function.update s.hand workerId .idle }

@[simp] theorem handled_hand (workerId : WorkerId) (table : Table) :
    (s.handled workerId table).hand = Function.update s.hand workerId .idle := rfl

/-- SOURCE: queue/worker_loop.py:149-152; the batch size is one in both queues. -/
def claimOne (cfg : Settings) (workerId : WorkerId) (leaseSeconds : ℕ) (locked : List Uuid) :
    State :=
  let (table, claimed) :=
    claimBatch s.table s.now workerId 1 leaseSeconds (some cfg.maxAttempts) locked
  { s with
    table := table
    hand := Function.update s.hand workerId (match claimed with
      | [] => .idle
      | row :: _ => .working row)
    claims := s.claims ++ claimed.map fun row => ⟨s.now, row.id⟩ }

def faultOf (q : FaultQueue) (cfg : Settings) (workerId : WorkerId) (row : Row)
    (fault : StageFault) : Fault where
  workerId := workerId
  itemId := row.id
  attempts := row.attempts
  lastError := (s.table.find? row.id).bind Row.lastError
  metAt := s.now
  delay := delayOf q cfg fault
  error := fault.message
  since := s.claims.length

/-- The first statement of the answer.
SOURCE: orders/worker.py:157, 165, pipeline/runner.py:264, 272 -/
def release (workerId : WorkerId) (f : Fault) : State :=
  { s with
    table := WorkQueue.releaseUntouched s.table f.itemId workerId
    hand := Function.update s.hand workerId (.answering f)
    met := s.met ++ [f] }

@[simp] theorem release_hand (workerId : WorkerId) (f : Fault) :
    (s.release workerId f).hand = Function.update s.hand workerId (.answering f) := rfl

/-- The second statement, `delay` from its own time. -/
def answer (q : FaultQueue) (workerId : WorkerId) (f : Fault) : State :=
  let table := ProviderFaults.postpone q s.table f.itemId workerId (s.now + f.delay) f.error
  { s with
    table := table
    hand := Function.update s.hand workerId .idle
    ended := s.ended ++ [(f, table.find? f.itemId)] }

@[simp] theorem answer_hand (q : FaultQueue) (workerId : WorkerId) (f : Fault) :
    (s.answer q workerId f).hand = Function.update s.hand workerId .idle := rfl

/-- SOURCE: orders/worker.py:296-312, pipeline/runner.py:421-438 -/
def retryOrFail (cfg : Settings) (workerId : WorkerId) (row : Row) (nextAttemptAt : Time)
    (error : String) : Table :=
  if cfg.maxAttempts ≤ row.attempts then WorkQueue.fail s.table row.id workerId error
  else retry s.table row.id workerId nextAttemptAt (some error)

end State

/-- One step. A worker claims with nothing in hand and decides only the row in its
hand; `retryRun` is the pipeline's alone, and a row leaves the table only with its
account or its order. -/
def step (q : FaultQueue) (cfg : Settings) (s : State) : Label → Option State
  | .tick elapsed => some { s with now := s.now + elapsed }
  | .enqueue priority nextAttemptAt =>
    if h : s.nextId ∉ s.table.rows.map Row.id then
      some { s with
        nextId := s.nextId + 1
        table := s.table.insert (freshRow s.nextId priority nextAttemptAt s.now) h }
    else none
  | .claimBatch workerId leaseSeconds locked =>
    match s.hand workerId with
    | .idle => some (s.claimOne cfg workerId leaseSeconds locked)
    | _ => none
  | .heartbeat workerId ids leaseSeconds =>
    some { s with table := heartbeat s.table s.now ids workerId leaseSeconds }
  | .complete workerId status =>
    match s.hand workerId with
    | .working row =>
      if status.terminal ∧ status ≠ .failed then
        some (s.handled workerId (complete s.table row.id workerId status))
      else none
    | _ => none
  | .fail workerId error =>
    match s.hand workerId with
    | .working row => some (s.handled workerId (WorkQueue.fail s.table row.id workerId error))
    | _ => none
  | .retryOrFail workerId nextAttemptAt error =>
    match s.hand workerId with
    | .working row =>
      some (s.handled workerId (s.retryOrFail cfg workerId row nextAttemptAt error))
    | _ => none
  | .fault workerId fault =>
    match s.hand workerId with
    | .working row => some (s.release workerId (s.faultOf q cfg workerId row fault))
    | _ => none
  | .postpone workerId =>
    match s.hand workerId with
    | .answering f => some (s.answer q workerId f)
    | _ => none
  | .releaseUntouched workerId =>
    match s.hand workerId with
    | .working row =>
      some (s.handled workerId (WorkQueue.releaseUntouched s.table row.id workerId))
    | _ => none
  | .releaseAllClaims workerId =>
    some (s.handled workerId (WorkQueue.releaseAllClaims s.table workerId))
  | .reclaimExpired => some { s with table := WorkQueue.reclaimExpired s.table s.now }
  | .crash workerId => some { s with hand := Function.update s.hand workerId .idle }
  | .remove id => some { s with table := s.table.erase id }
  | .retryRun id =>
    if q = .pipeline then some { s with table := WorkQueue.retryRun s.table s.now id } else none

/-- An empty table and no worker holding anything. -/
def start : State := ⟨0, 0, KeyedTable.empty, fun _ => .idle, [], [], []⟩

def system (q : FaultQueue) (cfg : Settings) : TransitionSystem State Label where
  init s := s = start
  step := step q cfg

end MailVerdict.Model.ProviderFaults
