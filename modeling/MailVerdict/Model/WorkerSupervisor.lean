import MailVerdict.Computation.MarkedFront
import MailVerdict.Computation.TransitionSystem
import Mathlib.Algebra.Order.Ring.Int

/-!
# The worker supervisor

`WorkerSupervisor` keeps a dictionary of worker tasks, in the order they were started, and a stop
event for each. `_reconcile_once` runs under a lock and awaits nothing, so it is one step: it drops
the tasks that are done, and starts as many workers as are missing or tells the first ones to stop.
It runs after every `set_target` and on a timer.

What a worker does is its own: it takes a job, puts it down, and leaves by returning or raising. It
is expected to look at its stop event between jobs; nothing here makes it.

SOURCE: queue/supervisor.py:27-146
-/

namespace MailVerdict.Model.WorkerSupervisor

open MailVerdict.Computation MarkedFront

/-- `<name>-<8 hexadecimal digits of a uuid4>` -/
abbrev WorkerId := ℕ

/-- Where a worker's body is; the last two are a task that is done. -/
inductive Body
  | waiting
  | working
  | returned
  | raised
deriving DecidableEq

structure Worker where
  id : WorkerId
  stopping : Bool
  body : Body
deriving DecidableEq

def Worker.done (w : Worker) : Bool := decide (w.body = .returned ∨ w.body = .raised)

def Worker.retire (w : Worker) : Worker := { w with stopping := true }

structure State where
  target : ℕ
  tasks : List Worker
deriving DecidableEq

/-- `ids` are the ids the new workers get. -/
inductive Label
  | setTarget (concurrency : ℤ)
  | reconcile (ids : List WorkerId)
  | take (id : WorkerId)
  | put (id : WorkerId)
  | leave (id : WorkerId) (raised : Bool)

def Label.worker : Label → Option WorkerId
  | .setTarget _ | .reconcile _ => none
  | .take id | .put id | .leave id _ => some id

/-- `max(0, concurrency)` -/
def clamp (concurrency : ℤ) : ℕ := concurrency.toNat

/-- SOURCE: queue/supervisor.py:60-68 -/
def initial (concurrency : ℤ) : State := ⟨clamp concurrency, []⟩

def freshWorker (id : WorkerId) : Worker := ⟨id, false, .waiting⟩

/-- `_spawn_one`: the task is put into the dictionary under its id.
SOURCE: queue/supervisor.py:133-138 -/
def spawnOne (tasks : List Worker) (id : WorkerId) : List Worker :=
  if tasks.any fun w => decide (w.id = id) then
    tasks.map fun w => if w.id = id then freshWorker id else w
  else tasks ++ [freshWorker id]

def State.live (s : State) : List Worker := s.tasks.filter fun w => !w.done

/-- SOURCE: queue/supervisor.py:117-131 -/
def reconcileOnce (s : State) (ids : List WorkerId) : Option State :=
  let tasks := s.live
  let deficit : ℤ := (s.target : ℤ) - tasks.length
  if 0 < deficit then
    if ids.length = deficit.toNat then some { s with tasks := ids.foldl spawnOne tasks } else none
  else if ids = [] then
    some { s with tasks := markFirst Worker.retire (-deficit).toNat tasks }
  else none

def onWorker (s : State) (id : WorkerId) (before : Worker → Bool) (after : Body) : Option State :=
  if s.tasks.any fun w => decide (w.id = id) && before w then
    some { s with tasks := s.tasks.map fun w =>
      if w.id = id && before w then { w with body := after } else w }
  else none

def step (s : State) : Label → Option State
  | .setTarget concurrency => some { s with target := clamp concurrency }
  | .reconcile ids => reconcileOnce s ids
  | .take id => onWorker s id (fun w => decide (w.body = .waiting)) .working
  | .put id => onWorker s id (fun w => decide (w.body = .working)) .waiting
  | .leave id true => onWorker s id (fun w => !w.done) .raised
  | .leave id false => onWorker s id (fun w => decide (w.body = .waiting)) .returned

def system (concurrency : ℤ) : TransitionSystem State Label where
  init s := s = initial concurrency
  step := step

/-- New ids are unlike each other and unlike those in the dictionary. -/
def FreshIds (s : State) : Label → Prop
  | .reconcile ids => ids.Nodup ∧ ∀ id ∈ ids, id ∉ s.tasks.map Worker.id
  | _ => True

instance (s : State) (l : Label) : Decidable (FreshIds s l) := by
  cases l <;> unfold FreshIds <;> infer_instance

end MailVerdict.Model.WorkerSupervisor
