import MailVerdict.Computation.TransitionSystem

/-!
# Keyed message actions

`run_once` (`mail_actions/submissions.py`) claims the row of its key, runs the action, and
stores the response in the row or deletes it. Each of its statements names one key, so the
system is that of one key: its row, the advisory lock of its name, and any number of requests
that carry it.

A request is at one statement of its own at a time. What the claiming transaction reads it reads
when it holds the lock, while a heartbeat, a store, a release or the prune of the row takes no
lock and may come between its statements. Its `now()` is the time it began, before it waited.
A request's token is new, so the token is the request.

`lastBeat`, `late` and `started` are the record of the executions: when one last said it was
alive, whether it ever kept silent for longer than a claim may, and how many there were. No
statement reads them.
-/

namespace MailVerdict.Model.ActionSubmissions

open MailVerdict.Computation

abbrev Time := ℕ

/-- A response, as the JSON it is stored as. -/
abbrev Response := String

abbrev RequestId := ℕ

def abandonedAfterSeconds : ℕ := 90

/-- A `message_action_submissions` row. `completed_at` is read by nothing.
SOURCE: database/models.py:1704-1731 -/
structure Submission where
  fingerprint : String
  response : Option Response
  createdAt : Time
  heartbeatAt : Time
  claimToken : RequestId

/-- Where a request is. From `looking` to `takingOver` it holds the lock; `ended` is between
the end of the action and the statement that follows it, with the response of one that
succeeded. -/
inductive Phase
  | absent
  | waiting
  | looking
  | checking
  | takingOver
  | running
  | ended (outcome : Option Response)
  | finished
  | answered (response : Response)
  | refused
  | busy
  | crashed
deriving DecidableEq

/-- Whether a request has its answer, or will get none. -/
def Phase.over : Phase → Bool
  | .finished | .answered _ | .refused | .busy | .crashed => true
  | _ => false

/-- Whether a request holds the lock of the key's name. -/
def Phase.locking : Phase → Bool
  | .looking | .checking | .takingOver => true
  | _ => false

/-- Whether a request's heartbeat task runs; a beat under way when the action ends is let
finish. -/
def Phase.beating : Phase → Bool
  | .running | .ended _ => true
  | _ => false

structure Request where
  fingerprint : String
  since : Time
  phase : Phase
  lastBeat : Time
  late : Bool

def Request.absent : Request := ⟨"", 0, .absent, 0, false⟩

structure State where
  now : Time
  row : Option Submission
  lock : Option RequestId
  requests : RequestId → Request
  started : ℕ

inductive Label
  | tick (elapsed : ℕ)
  | arrive (q : RequestId) (fingerprint : String)
  | lock (q : RequestId)
  | look (q : RequestId)
  | check (q : RequestId)
  | takeOver (q : RequestId)
  | beat (q : RequestId)
  | applied (q : RequestId) (outcome : Option Response)
  | finish (q : RequestId)
  | crash (q : RequestId)
  | prune (retention : ℕ)

def State.phase (s : State) (q : RequestId) : Phase := (s.requests q).phase

def State.setRequest (s : State) (q : RequestId) (r : Request) : State :=
  { s with requests := Function.update s.requests q r }

def State.setPhase (s : State) (q : RequestId) (p : Phase) : State :=
  s.setRequest q { s.requests q with phase := p }

/-- The claiming transaction committed with nothing claimed. -/
def State.leave (s : State) (q : RequestId) (p : Phase) : State :=
  { s.setPhase q p with lock := none }

/-- The claiming transaction committed with the claim in the row: the action starts. Its first
sign of life is as old as the transaction. -/
def State.claim (s : State) (q : RequestId) (row : Option Submission) : State :=
  let r := s.requests q
  { s.setRequest q
      { r with
        phase := .running
        lastBeat := r.since
        late := decide (r.since + abandonedAfterSeconds < s.now) } with
    row := row
    lock := none
    started := s.started + 1 }

/-- An execution that keeps silent past the limit. -/
def Request.aged (now : Time) (r : Request) : Request :=
  { r with
    late := r.late ||
      (decide (r.phase = .running) && decide (r.lastBeat + abandonedAfterSeconds < now)) }

/-- The update of `_beat`, `WHERE idempotency_key AND claim_token`.
SOURCE: mail_actions/submissions.py:189-199 -/
def beatRow (q : RequestId) (now : Time) (row : Submission) : Submission :=
  if row.claimToken = q then { row with heartbeatAt := now } else row

/-- The store of a response, under the same condition.
SOURCE: mail_actions/submissions.py:165-175 -/
def storeRow (q : RequestId) (response : Response) (row : Submission) : Submission :=
  if row.claimToken = q then { row with response := some response } else row

/-- `_release`.
SOURCE: mail_actions/submissions.py:220-229 -/
def releaseRow (q : RequestId) (row : Submission) : Option Submission :=
  if row.claimToken = q ∧ row.response = none then none else some row

/-- The claim of a request that takes another's over, `WHERE idempotency_key`.
SOURCE: mail_actions/submissions.py:141-145 -/
def takeOverRow (q : RequestId) (since : Time) (row : Submission) : Submission :=
  { row with createdAt := since, heartbeatAt := since, claimToken := q }

/-- `prune_submissions_once` on one row.
SOURCE: mail_actions/submissions.py:239-256 -/
def expired (now : Time) (retention : ℕ) (row : Submission) : Bool :=
  decide (row.createdAt + retention < now)

/-- SOURCE: mail_actions/submissions.py:91-175 -/
def step (s : State) : Label → Option State
  | .tick elapsed =>
    some
      { s with
        now := s.now + elapsed
        requests := fun q => (s.requests q).aged (s.now + elapsed) }
  | .arrive q fingerprint =>
    if s.phase q = .absent then
      some (s.setRequest q ⟨fingerprint, s.now, .waiting, s.now, false⟩)
    else none
  | .lock q =>
    if s.phase q = .waiting ∧ s.lock = none then
      some { s.setPhase q .looking with lock := some q }
    else none
  | .look q =>
    let r := s.requests q
    if r.phase = .looking then
      match s.row with
      | none => some (s.claim q (some ⟨r.fingerprint, none, r.since, r.since, q⟩))
      | some previous =>
        if previous.fingerprint ≠ r.fingerprint then some (s.leave q .refused)
        else
          match previous.response with
          | some response => some (s.leave q (.answered response))
          | none => some (s.setPhase q .checking)
    else none
  | .check q =>
    let r := s.requests q
    if r.phase = .checking then
      let abandoned := s.row.any fun row =>
        decide (row.heartbeatAt + abandonedAfterSeconds < r.since)
      if abandoned then some (s.setPhase q .takingOver) else some (s.leave q .busy)
    else none
  | .takeOver q =>
    if s.phase q = .takingOver then
      some (s.claim q (s.row.map (takeOverRow q (s.requests q).since)))
    else none
  | .beat q =>
    let r := s.requests q
    if r.phase.beating then
      some
        { s.setRequest q { r with lastBeat := s.now } with
          row := s.row.map (beatRow q s.now) }
    else none
  | .applied q outcome =>
    if s.phase q = .running then some (s.setPhase q (.ended outcome)) else none
  | .finish q =>
    match s.phase q with
    | .ended (some response) =>
      some { s.setPhase q .finished with row := s.row.map (storeRow q response) }
    | .ended none => some { s.setPhase q .finished with row := s.row.bind (releaseRow q) }
    | _ => none
  | .crash q =>
    if s.phase q = .absent ∨ (s.phase q).over then none
    else
      some
        { s.setPhase q .crashed with
          lock := if (s.phase q).locking then none else s.lock }
  | .prune retention =>
    some { s with row := s.row.filter fun row => !expired s.now retention row }

def start : State := ⟨0, none, none, fun _ => .absent, 0⟩

def system : TransitionSystem State Label where
  init s := s = start
  step := step

end MailVerdict.Model.ActionSubmissions
