import MailVerdict.Model.WorkQueue

/-!
# The statements of a pipeline run

A `pipeline_runs` row is a queue row with the runner's own columns beside it (trace, counters,
the stage that failed). `_handle_item` executes the run and then ends it in one of five ways, each
of them one to three statements in transactions of their own: the queue's statements match the
worker's name, the runner's own update the row by its id.

One step is one committed statement. `lost` marks a worker whose row a reclaim returned to
`pending` while the worker had it; no statement reads it.
-/

namespace MailVerdict.Model.PipelineRuns

open MailVerdict.Computation
open Model.WorkQueue hiding State Label step start system

/-- The columns of a `pipeline_runs` row the queue does not write. `trace` has its entries as
the JSON texts they are stored as.
SOURCE: database/models.py:1511-1565 -/
structure RunColumns where
  trace : List String
  skipReason : Option String
  pipelineRev : Option ℕ
  haltedAtStage : Option String
  failedStage : Option String
  modelCalls : ℕ
  startedAt : Option Time
  finishedAt : Option Time
deriving DecidableEq

def RunColumns.fresh : RunColumns := ⟨[], none, none, none, none, 0, none, none⟩

/-- `_RunResult`: an executed run is done or was skipped.
SOURCE: pipeline/runner.py:89-98 -/
structure RunResult where
  status : Status
  ended : status = .done ∨ status = .skipped
  skipReason : Option String
  trace : List String
  modelCalls : ℕ
  pipelineRev : Option ℕ
  haltedAtStage : Option String
deriving DecidableEq

structure FinishedEvent where
  runId : Uuid
  status : Status
  haltedAt : Option String
deriving DecidableEq

/-- Where `_handle_item` is with the row it was given: executing the run, or before the next
statement of the end it came to. -/
inductive Doing
  | idle
  | running (row : Row)
  | completing (row : Row) (outcome : RunResult)
  | announcing (row : Row) (outcome : RunResult)
  | failing (row : Row) (error : String)
  | pushing (row : Row) (delay : ℕ)
deriving DecidableEq

def Doing.row : Doing → Option Row
  | .idle => none
  | .running row | .completing row _ | .announcing row _ | .failing row _ | .pushing row _ =>
    some row

/-- What a worker goes on to with the rows a claim of one returned. -/
def Doing.given : List Row → Doing
  | [] => .idle
  | row :: _ => .running row

structure State where
  now : Time
  table : Table
  runs : Uuid → RunColumns
  finished : List FinishedEvent
  doing : WorkerId → Doing
  gone : WorkerId → Bool
  lost : WorkerId → Bool

inductive Label
  | tick (elapsed : ℕ)
  | enqueue (id : Uuid) (priority : ℤ) (nextAttemptAt : Time)
  | claim (workerId : WorkerId) (leaseSeconds maxAttempts : ℕ) (locked : List Uuid)
  | heartbeat (workerId : WorkerId) (leaseSeconds : ℕ)
  | finishOk (workerId : WorkerId) (outcome : RunResult)
  | complete (workerId : WorkerId)
  | announce (workerId : WorkerId)
  | misconfigured (workerId : WorkerId) (error : String) (stageId : Option String)
  | fail (workerId : WorkerId)
  | releaseUntouched (workerId : WorkerId) (delay : ℕ)
  | pushNextAttempt (workerId : WorkerId)
  | retryTransient (workerId : WorkerId) (maxAttempts delay : ℕ) (error : String)
  | crash (workerId : WorkerId)
  | reclaimExpired
  | retryRun (id : Uuid)

/-- The worker that makes a statement about the row it was given. -/
def Label.worker : Label → Option WorkerId
  | .heartbeat w _ | .finishOk w _ | .complete w | .announce w | .misconfigured w _ _ | .fail w
  | .releaseUntouched w _ | .pushNextAttempt w | .retryTransient w _ _ _ => some w
  | _ => none

/-- The update of `_finish_ok`, `WHERE id = :id`.
SOURCE: pipeline/runner.py:450-466 -/
def finishedColumns (now : Time) (outcome : RunResult) (c : RunColumns) : RunColumns :=
  { c with
    trace := outcome.trace
    skipReason := outcome.skipReason
    pipelineRev := outcome.pipelineRev
    haltedAtStage := outcome.haltedAtStage
    modelCalls := c.modelCalls + outcome.modelCalls
    startedAt := c.startedAt.or (some now)
    finishedAt := some now }

/-- The update of `_finish_failed`, `WHERE id = :id`, when the error names a stage.
SOURCE: pipeline/runner.py:440-447 -/
def failedColumns (stageId : Option String) (c : RunColumns) : RunColumns :=
  match stageId with
  | some stage => { c with failedStage := some stage }
  | none => c

/-- SOURCE: pipeline/runner.py:470-477 -/
def finishedEvent (row : Row) (outcome : RunResult) : FinishedEvent :=
  ⟨row.id, outcome.status, outcome.haltedAtStage⟩

/-- The columns after a restart of the row, when it has failed.
SOURCE: api/runs.py:84-105 -/
def restartedColumns (t : Table) (id : Uuid) (c : RunColumns) : RunColumns :=
  if t.rows.any fun r => decide (r.id = id) && decide (r.status = .failed) then
    { c with failedStage := none }
  else c

def State.setRun (s : State) (id : Uuid) (c : RunColumns) : State :=
  { s with runs := Function.update s.runs id c }

def State.setDoing (s : State) (w : WorkerId) (d : Doing) : State :=
  { s with doing := Function.update s.doing w d }

def State.pipelineRow (s : State) (id : Uuid) : Option (Row × RunColumns) :=
  (s.table.find? id).map fun r => (r, s.runs id)

/-- Whether a reclaim takes the row of a worker from it. -/
def State.expires (s : State) (w : WorkerId) : Bool :=
  (s.doing w).row.any fun c =>
    s.table.rows.any fun r => decide (r.id = c.id) && r.heldBy w && r.leaseExpired s.now

/-- SOURCE: pipeline/runner.py:222-282, 411-471; queue/worker_loop.py:92-167 -/
def step (s : State) : Label → Option State
  | .tick elapsed => some { s with now := s.now + elapsed }
  | .enqueue id priority nextAttemptAt =>
    if h : id ∉ s.table.rows.map Row.id then
      some { s with table := s.table.insert (freshRow id priority nextAttemptAt s.now) h }
    else none
  | .claim w leaseSeconds maxAttempts locked =>
    if s.gone w = false ∧ s.doing w = .idle then
      let (table, claimed) :=
        claimBatch s.table s.now w 1 leaseSeconds (some maxAttempts) locked
      some
        { s with
          table := table
          doing := Function.update s.doing w (Doing.given claimed)
          lost := Function.update s.lost w false }
    else none
  | .heartbeat w leaseSeconds =>
    (s.doing w).row.map fun row =>
      { s with table := heartbeat s.table s.now [row.id] w leaseSeconds }
  | .finishOk w outcome =>
    match s.doing w with
    | .running row =>
      some ((s.setRun row.id (finishedColumns s.now outcome (s.runs row.id))).setDoing w
        (.completing row outcome))
    | _ => none
  | .complete w =>
    match s.doing w with
    | .completing row outcome =>
      some ({ s with table := complete s.table row.id w outcome.status }.setDoing w
        (.announcing row outcome))
    | _ => none
  | .announce w =>
    match s.doing w with
    | .announcing row outcome =>
      some ({ s with finished := s.finished ++ [finishedEvent row outcome] }.setDoing w .idle)
    | _ => none
  | .misconfigured w error stageId =>
    match s.doing w with
    | .running row =>
      some ((s.setRun row.id (failedColumns stageId (s.runs row.id))).setDoing w
        (.failing row error))
    | _ => none
  | .fail w =>
    match s.doing w with
    | .failing row error =>
      some ({ s with table := fail s.table row.id w error }.setDoing w .idle)
    | _ => none
  | .releaseUntouched w delay =>
    match s.doing w with
    | .running row =>
      some ({ s with table := releaseUntouched s.table row.id w }.setDoing w
        (.pushing row delay))
    | _ => none
  | .pushNextAttempt w =>
    match s.doing w with
    | .pushing row delay =>
      some ({ s with table := pushNextAttempt s.table row.id (s.now + delay) }.setDoing w
        .idle)
    | _ => none
  | .retryTransient w maxAttempts delay error =>
    match s.doing w with
    | .running row =>
      let table :=
        if maxAttempts ≤ row.attempts then fail s.table row.id w error
        else retry s.table row.id w (s.now + delay) (some error)
      some ({ s with table := table }.setDoing w .idle)
    | _ => none
  | .crash w => some { s with gone := Function.update s.gone w true }
  | .reclaimExpired =>
    some
      { s with
        table := reclaimExpired s.table s.now
        lost := fun w => s.lost w || s.expires w }
  | .retryRun id =>
    some
      { s with
        table := retryRun s.table s.now id
        runs := Function.update s.runs id (restartedColumns s.table id (s.runs id)) }

/-- No run, and workers that were given nothing. -/
def start : State :=
  ⟨0, KeyedTable.empty, fun _ => .fresh, [], fun _ => .idle, fun _ => false, fun _ => false⟩

def system : TransitionSystem State Label where
  init s := s = start
  step := step

end MailVerdict.Model.PipelineRuns
