import MailVerdict.Computation.TransitionSystem

/-!
# One circuit breaker

A breaker is a row of `circuit_breakers` that any number of workers share by its name. Every
operation of `queue/circuit.py` is one transaction of one statement, so they act on the row one
after the other in any order: a call under way when the breaker was suspended records what became
of it later. `now()` is when the transaction began, maybe before it had the row's lock.

`is_available` reads the row and then compares with the worker's own clock, so its answer is a
function of the row it read and of any later time. `awaited` is the record of a
`record_unavailable` with no `record_success` since; no statement reads it.
-/

namespace MailVerdict.Model.CircuitBreaker

open MailVerdict.Computation

abbrev Time := ℕ

/-- SOURCE: queue/circuit.py:30-35 -/
inductive CircuitState
  | closed
  | «open»
  | suspended
deriving DecidableEq

/-- A `circuit_breakers` row without its name.
SOURCE: database/models.py, queue/circuit.py:38-46 -/
structure CircuitStatus where
  state : CircuitState
  reason : Option String
  since : Option Time
  retryAfter : Option Time
deriving DecidableEq

/-- The row an insert of the name alone makes. -/
def CircuitStatus.fresh : CircuitStatus := ⟨.closed, none, none, none⟩

structure State where
  now : Time
  row : Option CircuitStatus
  awaited : Bool
deriving DecidableEq

/-- `began` is the operation's `now()`. -/
inductive Label
  | tick (elapsed : ℕ)
  | status
  | recordSuccess
  | recordBackoff (began : Time) (retryAfter : ℕ) (reason : Option String)
  | recordUnavailable (began : Time) (reason : String) (probeInterval : ℕ)
  | tryProbe (began : Time) (probeInterval : ℕ)

/-- SOURCE: queue/circuit.py:93-110 -/
def isAvailable (status : CircuitStatus) (now : Time) : Bool :=
  match status.state with
  | .closed => true
  | .open => match status.retryAfter with
      | some retryAfter => decide (retryAfter ≤ now)
      | none => false
  | .suspended => false

/-- `INSERT … ON CONFLICT DO NOTHING`.
SOURCE: queue/circuit.py:63-91 -/
def created (row : Option CircuitStatus) : CircuitStatus := row.getD .fresh

/-- SOURCE: queue/circuit.py:112-121 -/
def recordSuccess (row : Option CircuitStatus) : Option CircuitStatus := row.map fun _ => .fresh

/-- SOURCE: queue/circuit.py:123-144 -/
def recordBackoff (began : Time) (retryAfter : ℕ) (reason : Option String) :
    Option CircuitStatus → CircuitStatus
  | none => ⟨.open, reason, some began, some (began + retryAfter)⟩
  | some c =>
    { state := .open
      reason := reason
      since := if c.state = .closed then some began else c.since
      retryAfter := some (began + retryAfter) }

/-- SOURCE: queue/circuit.py:146-171 -/
def recordUnavailable (began : Time) (reason : String) (probeInterval : ℕ) :
    Option CircuitStatus → CircuitStatus
  | none => ⟨.suspended, some reason, some began, some (began + probeInterval)⟩
  | some c =>
    { state := .suspended
      reason := some reason
      since := if c.state ≠ .suspended then some began else c.since
      retryAfter := some (began + probeInterval) }

/-- Whether a probe claimed at `began` finds the row suspended and due. -/
def probeDue (began : Time) (c : CircuitStatus) : Bool :=
  decide (c.state = .suspended) && match c.retryAfter with
    | some retryAfter => decide (retryAfter ≤ began)
    | none => false

/-- The row after `try_probe`, and its answer.
SOURCE: queue/circuit.py:173-195 -/
def tryProbe (began : Time) (probeInterval : ℕ) (row : Option CircuitStatus) :
    Option CircuitStatus × Bool :=
  match row with
  | none => (none, false)
  | some c =>
    if probeDue began c then (some { c with retryAfter := some (began + probeInterval) }, true)
    else (some c, false)

def step (s : State) : Label → Option State
  | .tick elapsed => some { s with now := s.now + elapsed }
  | .status => some { s with row := some (created s.row) }
  | .recordSuccess => some { s with row := recordSuccess s.row, awaited := false }
  | .recordBackoff began retryAfter reason =>
    if began ≤ s.now then some { s with row := some (recordBackoff began retryAfter reason s.row) }
    else none
  | .recordUnavailable began reason probeInterval =>
    if began ≤ s.now then
      some { s with
        row := some (recordUnavailable began reason probeInterval s.row)
        awaited := true }
    else none
  | .tryProbe began probeInterval =>
    if began ≤ s.now then some { s with row := (tryProbe began probeInterval s.row).1 } else none

def start : State := ⟨0, none, false⟩

def system : TransitionSystem State Label where
  init s := s = start
  step := step

end MailVerdict.Model.CircuitBreaker
