import MailVerdict.Computation.SharedBudget
import MailVerdict.Computation.TransitionSystem
import Mathlib.Algebra.Order.Ring.Int

/-!
# The queue manager

`QueueManager` keeps a row of operator state for every registered queue and a supervisor with a
target for each. `set_state` checks the budget and writes the row in one transaction under an
advisory lock; after it, with the lock released, it reads the row back and sets the supervisor's
target to what it read. Reading back and setting are two steps: the answer of the read is what
the call has when its turn comes.

One step is one such part of one call. A read that finds no row inserts the defaults, so `rows`
has a row for every queue. `set_state` refuses a negative concurrency and every other writer of
the column is its default.
-/

namespace MailVerdict.Model.QueueManager

open MailVerdict.Computation SharedBudget

abbrev Name := String

abbrev CallId := ℕ

inductive RunState
  | running
  | paused
deriving DecidableEq

def RunState.parse (text : String) : Option RunState :=
  if text = "running" then some .running
  else if text = "paused" then some .paused
  else none

/-- SOURCE: queue/manager.py:51-57; database/models.py:1407-1409 -/
structure QueueStateRow where
  state : RunState
  concurrency : ℕ

/-- The concurrency a row runs at.
SOURCE: queue/manager.py:190, 389 -/
def QueueStateRow.target (row : QueueStateRow) : ℕ :=
  if row.state = .running then row.concurrency else 0

/-- The registered queues, in the order of their registration, and the database's pool. -/
structure Pool where
  registered : List Name
  distinct : registered.Nodup
  poolCapacity : ℕ
  reservedForRequests : ℕ

def Pool.budget (pool : Pool) : ℤ := pool.poolCapacity - pool.reservedForRequests

/-- Why `set_state` raises. -/
inductive Refusal
  | unregistered (name : Name)
  | badState (state : String)
  | negativeConcurrency
  | exceedsBudget (name : Name) (concurrency total : ℕ) (budget : ℤ)

/-- What every other running queue has committed.
SOURCE: queue/manager.py:238-267 -/
def committedConcurrency (pool : Pool) (rows : Name → QueueStateRow) (exclude : Name) : ℕ :=
  others pool.registered (fun name => (rows name).target) exclude

/-- The row of a call that leaves some of it unchanged. -/
def QueueStateRow.set (current : QueueStateRow) (state : Option RunState)
    (concurrency : Option ℕ) : QueueStateRow :=
  ⟨state.getD current.state, concurrency.getD current.concurrency⟩

/-- The budget check and the write it authorises.
SOURCE: queue/manager.py:347-385 -/
def writeState (pool : Pool) (rows : Name → QueueStateRow) (name : Name)
    (state : Option RunState) (concurrency : Option ℕ) :
    Except Refusal (Name → QueueStateRow) :=
  let row := (rows name).set state concurrency
  let committed := committedConcurrency pool rows name
  if 0 < row.target ∧ pool.budget < ((committed + row.target : ℕ) : ℤ) then
    .error (.exceedsBudget name row.target (committed + row.target) pool.budget)
  else .ok (Function.update rows name row)

/-- What a call's arguments have to be.
SOURCE: queue/manager.py:333-338 -/
def validate (pool : Pool) (name : Name) (state : Option String) (concurrency : Option ℤ) :
    Except Refusal (Option RunState × Option ℕ) :=
  if name ∉ pool.registered then .error (.unregistered name)
  else if state.any fun text => (RunState.parse text).isNone then .error (.badState (state.getD ""))
  else if concurrency.any fun c => decide (c < 0) then .error .negativeConcurrency
  else .ok (state.bind RunState.parse, concurrency.map Int.toNat)

/-- `set_state` up to the end of its transaction. -/
def setState (pool : Pool) (rows : Name → QueueStateRow) (name : Name) (state : Option String)
    (concurrency : Option ℤ) : Except Refusal (Name → QueueStateRow) :=
  (validate pool name state concurrency).bind fun (st, c) => writeState pool rows name st c

/-- The targets `start` sets, each clamped to what the queues before it have left.
SOURCE: queue/manager.py:187-199; queue/supervisor.py:93 -/
def startTargets (rows : Name → QueueStateRow) : List Name → ℤ → Name → ℕ
  | [], _ => fun _ => 0
  | name :: rest, budget =>
    let persisted := (rows name).target
    let target := if budget < (persisted : ℤ) then budget.toNat else persisted
    Function.update (startTargets rows rest (budget - target)) name target

/-- Where a call of `set_state` is after its transaction. -/
inductive Call
  | reading (name : Name)
  | applying (name : Name) (row : QueueStateRow)

def Call.name : Call → Name
  | .reading name | .applying name _ => name

structure State where
  rows : Name → QueueStateRow
  target : Name → ℕ
  call : CallId → Option Call

inductive Label
  | setState (k : CallId) (name : Name) (state : Option String) (concurrency : Option ℤ)
  | readBack (k : CallId)
  | setTarget (k : CallId)
  | fails (k : CallId)

/-- SOURCE: queue/manager.py:300-390 -/
def step (pool : Pool) (s : State) : Label → Option State
  | .setState k name state concurrency =>
    if s.call k = none then
      match setState pool s.rows name state concurrency with
      | .error _ => some s
      | .ok rows =>
        some { s with
          rows := rows
          call := Function.update s.call k (some (.reading name)) }
    else none
  | .readBack k =>
    match s.call k with
    | some (.reading name) =>
      some { s with
        call := Function.update s.call k (some (.applying name (s.rows name))) }
    | _ => none
  | .setTarget k =>
    match s.call k with
    | some (.applying name row) =>
      some { s with
        target := Function.update s.target name row.target
        call := Function.update s.call k none }
    | _ => none
  | .fails k =>
    (s.call k).map fun _ => { s with call := Function.update s.call k none }

/-- The manager after `start`, on the rows it found. -/
def started (pool : Pool) (persisted : Name → QueueStateRow) : State :=
  ⟨persisted, startTargets persisted pool.registered pool.budget, fun _ => none⟩

def system (pool : Pool) (persisted : Name → QueueStateRow) : TransitionSystem State Label where
  init s := s = started pool persisted
  step := step pool

end MailVerdict.Model.QueueManager
