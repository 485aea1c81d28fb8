import MailVerdict.Model.WorkQueue

/-!
# Webhook deliveries

A `webhook_deliveries` row is a queue row with the outcome of its attempts beside it.
`handle_delivery` makes one request for a claimed row and then ends it: one statement marks it
done; or a retry or a failure under the worker's name is followed by a statement that records the
status by the row's id alone, and a failure by the alert, each a transaction of its own. Beside
its loop every worker has a sweeper that fails the pending rows which are out of attempts and
then raises their alerts one after the other; an exception there is logged, and the rest of the
rows it has failed are forgotten.

One step is one committed statement, a request leaving, or a worker's task coming to its end: by
a crash of the process, an exception, or a stop. The supervisor makes up a new name for every
worker it starts.

`completed` and `again` are the record of the attempts: the status of the one that completed a
row, and whether a completed row was claimed or sent once more. No statement reads them.
-/

namespace MailVerdict.Model.WebhookDeliveries

open MailVerdict.Computation
open Model.WorkQueue hiding State Label step start system

/-- The columns of a `webhook_deliveries` row the queue does not write.
SOURCE: database/models.py:2322-2324 -/
structure DeliveryColumns where
  httpStatus : Option ℕ
  generation : ℕ
  deliveredAt : Option Time

def DeliveryColumns.fresh : DeliveryColumns := ⟨none, 0, none⟩

structure Claimed where
  row : Row
  generation : ℕ
deriving DecidableEq

inductive OutcomeKind
  | done
  | transient
  | permanent
deriving DecidableEq

/-- How one attempt ended.
SOURCE: webhooks/worker.py:80-87 -/
structure Outcome where
  kind : OutcomeKind
  detail : String
  httpStatus : Option ℕ
deriving DecidableEq

def isSuccess (status : ℕ) : Bool := decide (200 ≤ status) && decide (status < 300)

/-- SOURCE: webhooks/worker.py:70 -/
def retryableStatuses : List ℕ := [408, 429]

/-- The outcome of an answered request.
SOURCE: webhooks/worker.py:266-271 -/
def answered (status : ℕ) : Outcome :=
  let kind :=
    if isSuccess status then OutcomeKind.done
    else if 500 ≤ status ∨ status ∈ retryableStatuses then .transient
    else .permanent
  ⟨kind, "HTTP " ++ toString status, some status⟩

/-- An attempt that came to its end without an answer: a timeout, a transport error, a message
that is gone, a header that cannot be rendered. -/
inductive Unanswered
  | transient (detail : String)
  | permanent (detail : String)

def Unanswered.outcome : Unanswered → Outcome
  | .transient detail => ⟨.transient, detail, none⟩
  | .permanent detail => ⟨.permanent, detail, none⟩

/-- A `webhook_failed` alert; its `dedupe_key` is of the delivery and the generation. -/
structure Alert where
  deliveryId : Uuid
  generation : ℕ
  body : String
  dismissed : Bool

/-- Where `handle_delivery` is with the row it was given. -/
inductive Doing
  | idle
  | loading (c : Claimed)
  | requesting (c : Claimed)
  | settling (c : Claimed) (outcome : Outcome)
  | recording (c : Claimed) (outcome : Outcome) (failed : Option String)
  | alerting (c : Claimed) (reason : String)
deriving DecidableEq

structure State where
  now : Time
  table : Table
  columns : Uuid → DeliveryColumns
  alerts : List Alert
  doing : WorkerId → Doing
  sweeping : WorkerId → List (Uuid × ℕ)
  gone : WorkerId → Bool
  completed : Uuid → Option ℕ
  again : Uuid → Bool

inductive Label
  | tick (elapsed : ℕ)
  | enqueue (id : Uuid) (priority : ℤ) (nextAttemptAt : Time)
  | claim (workerId : WorkerId) (leaseSeconds : ℕ) (locked : List Uuid)
  | release (workerId : WorkerId)
  | heartbeat (workerId : WorkerId) (leaseSeconds : ℕ)
  | request (workerId : WorkerId)
  | answer (workerId : WorkerId) (status : ℕ)
  | giveUp (workerId : WorkerId) (how : Unanswered)
  | settle (workerId : WorkerId) (delay : ℕ)
  | record (workerId : WorkerId)
  | raiseAlert (workerId : WorkerId)
  | sweep (workerId : WorkerId)
  | sweepAlert (workerId : WorkerId)
  | sweepFails (workerId : WorkerId)
  | ends (workerId : WorkerId)
  | reclaimExpired
  | requeue (ids : List Uuid)
  | dismiss (id : Uuid) (generation : ℕ)

def Doing.claimed : Doing → Option Claimed
  | .idle => none
  | .loading c | .requesting c | .settling c _ | .recording c _ _ | .alerting c _ => some c

def State.setDoing (s : State) (w : WorkerId) (d : Doing) : State :=
  { s with doing := Function.update s.doing w d }

def State.setColumns (s : State) (id : Uuid) (c : DeliveryColumns) : State :=
  { s with columns := Function.update s.columns id c }

def State.delivered (s : State) (id : Uuid) : Bool :=
  s.table.rows.any fun r => decide (r.id = id) && decide (r.status = .done)

/-- Whether a worker's guarded statement finds its row. -/
def State.holds (s : State) (w : WorkerId) (id : Uuid) : Bool :=
  s.table.rows.any fun r => decide (r.id = id) && r.heldBy w

/-- A delivered row as `_mark_done` leaves it. -/
def Row.delivered (r : Row) : Row := { r.unclaim with status := .done, lastError := none }

/-- `_mark_done`'s update of the queue's columns.
SOURCE: webhooks/worker.py:309-325 -/
def markDone (t : Table) (itemId : Uuid) (w : WorkerId) : Table :=
  t.update (fun r => decide (r.id = itemId) && r.heldBy w) Row.delivered fun _ => rfl

theorem id_restart (now : Time) (r : Row) : (Row.restart now r).id = r.id := rfl

/-- `_requeue`'s update of the queue's columns.
SOURCE: webhooks/repository.py:128-144 -/
def requeue (t : Table) (now : Time) (ids : List Uuid) : Table :=
  t.update (fun r => ids.contains r.id && decide (r.status = .failed)) (Row.restart now)
    (id_restart now)

def requeued (t : Table) (ids : List Uuid) (id : Uuid) : Bool :=
  t.rows.any fun r => decide (r.id = id) && ids.contains r.id && decide (r.status = .failed)

/-- The rows a sweep of the exhausted rows fails. -/
def exhausted (t : Table) (maxAttempts : ℕ) : List Row :=
  t.rows.filter fun r => decide (r.status = .pending) && decide (maxAttempts ≤ r.attempts)

/-- SOURCE: webhooks/worker.py:204 -/
def sweepReason (maxAttempts : ℕ) : String :=
  "worker stopped during the last attempt (gave up after " ++ toString maxAttempts ++ " attempts)"

/-- The reason a failure is given.
SOURCE: webhooks/worker.py:177-180 -/
def failureReason (c : Claimed) (outcome : Outcome) : String :=
  match outcome.kind with
  | .permanent => outcome.detail
  | .done | .transient =>
    outcome.detail ++ " (gave up after " ++ toString c.row.attempts ++ " attempts)"

/-- `ON CONFLICT (dedupe_key) DO NOTHING`.
SOURCE: database/repository.py:2002-2038 -/
def createAlert (alerts : List Alert) (id : Uuid) (generation : ℕ) (body : String) : List Alert :=
  if alerts.any fun a => decide (a.deliveryId = id ∧ a.generation = generation) then alerts
  else alerts ++ [⟨id, generation, body, false⟩]

def dismissAlert (alerts : List Alert) (id : Uuid) (generation : ℕ) : List Alert :=
  alerts.map fun a =>
    if a.deliveryId = id ∧ a.generation = generation then { a with dismissed := true } else a

/-- What `handle_delivery` goes on to with the rows a claim of one returned. -/
def Doing.given (columns : Uuid → DeliveryColumns) : List Row → Doing
  | [] => .idle
  | row :: _ => .loading ⟨row, (columns row.id).generation⟩

/-- The statement that ends an attempt.
SOURCE: webhooks/worker.py:160-185 -/
def settle (maxAttempts : ℕ) (s : State) (w : WorkerId) (c : Claimed) (outcome : Outcome)
    (delay : ℕ) : State :=
  if outcome.kind = .done then
    let s := if s.holds w c.row.id then
        { s.setColumns c.row.id
            { s.columns c.row.id with
              httpStatus := outcome.httpStatus
              deliveredAt := some s.now } with
          table := markDone s.table c.row.id w
          completed := Function.update s.completed c.row.id outcome.httpStatus }
      else s
    s.setDoing w .idle
  else if outcome.kind = .transient ∧ c.row.attempts < maxAttempts then
    { s.setDoing w (.recording c outcome none) with
      table := retry s.table c.row.id w (s.now + delay) (some outcome.detail) }
  else
    let reason := failureReason c outcome
    let next := if s.holds w c.row.id then .recording c outcome (some reason) else .idle
    { s.setDoing w next with table := fail s.table c.row.id w reason }

/-- SOURCE: webhooks/worker.py:90-223, 309-359; queue/worker_loop.py:130-167 -/
def step (maxAttempts : ℕ) (s : State) : Label → Option State
  | .tick elapsed => some { s with now := s.now + elapsed }
  | .enqueue id priority nextAttemptAt =>
    if h : id ∉ s.table.rows.map Row.id then
      some { s with
        table := s.table.insert (freshRow id priority nextAttemptAt s.now) h
        columns := Function.update s.columns id .fresh }
    else none
  | .claim w leaseSeconds locked =>
    if s.gone w = false ∧ s.doing w = .idle then
      let (table, claimed) :=
        claimBatch s.table s.now w 1 leaseSeconds (some maxAttempts) locked
      some { s.setDoing w (Doing.given s.columns claimed) with
        table := table
        again := fun id => s.again id || (s.delivered id && (claimed.map Row.id).contains id) }
    else none
  | .release w =>
    match s.doing w with
    | .loading c => some { s.setDoing w .idle with table := releaseUntouched s.table c.row.id w }
    | _ => none
  | .heartbeat w leaseSeconds =>
    (s.doing w).claimed.map fun c =>
      { s with table := heartbeat s.table s.now [c.row.id] w leaseSeconds }
  | .request w =>
    match s.doing w with
    | .loading c =>
      some { s.setDoing w (.requesting c) with
        again := fun id => s.again id || (decide (id = c.row.id) && s.delivered id) }
    | _ => none
  | .answer w status =>
    match s.doing w with
    | .requesting c => some (s.setDoing w (.settling c (answered status)))
    | _ => none
  | .giveUp w how =>
    match s.doing w with
    | .loading c | .requesting c => some (s.setDoing w (.settling c how.outcome))
    | _ => none
  | .settle w delay =>
    match s.doing w with
    | .settling c outcome => some (settle maxAttempts s w c outcome delay)
    | _ => none
  | .record w =>
    match s.doing w with
    | .recording c outcome failed =>
      let s := s.setColumns c.row.id
        { s.columns c.row.id with httpStatus := outcome.httpStatus }
      match failed with
      | some reason => some (s.setDoing w (.alerting c reason))
      | none => some (s.setDoing w .idle)
    | _ => none
  | .raiseAlert w =>
    match s.doing w with
    | .alerting c reason =>
      some { s.setDoing w .idle with
        alerts := createAlert s.alerts c.row.id c.generation reason }
    | _ => none
  | .sweep w =>
    if s.gone w = false ∧ s.sweeping w = [] then
      some { s with
        table := failExhausted s.table maxAttempts (sweepReason maxAttempts)
        sweeping := Function.update s.sweeping w
          ((exhausted s.table maxAttempts).map fun r => (r.id, (s.columns r.id).generation)) }
    else none
  | .sweepAlert w =>
    match s.sweeping w with
    | [] => none
    | (id, generation) :: rest =>
      some { s with
        alerts := createAlert s.alerts id generation (sweepReason maxAttempts)
        sweeping := Function.update s.sweeping w rest }
  | .sweepFails w => some { s with sweeping := Function.update s.sweeping w [] }
  | .ends w =>
    some { s.setDoing w .idle with
      sweeping := Function.update s.sweeping w []
      gone := Function.update s.gone w true }
  | .reclaimExpired => some { s with table := reclaimExpired s.table s.now }
  | .requeue ids =>
    some { s with
      table := requeue s.table s.now ids
      columns := fun id =>
        if requeued s.table ids id then
          { s.columns id with
            httpStatus := none
            generation := (s.columns id).generation + 1 }
        else s.columns id }
  | .dismiss id generation => some { s with alerts := dismissAlert s.alerts id generation }

/-- No delivery, and workers that were given nothing. -/
def start : State :=
  ⟨0, KeyedTable.empty, fun _ => .fresh, [], fun _ => .idle, fun _ => [], fun _ => false,
    fun _ => none, fun _ => false⟩

/-- `webhooks.max_attempts` is a setting of the process. -/
def system (maxAttempts : ℕ) : TransitionSystem State Label where
  init s := s = start
  step := step maxAttempts

end MailVerdict.Model.WebhookDeliveries
