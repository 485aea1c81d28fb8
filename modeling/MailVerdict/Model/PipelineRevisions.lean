import Mathlib.Data.Int.Notation
import MailVerdict.Computation.TransitionSystem

/-!
# Appending to the pipeline's revisions

`PipelineRevisionRepository.append` is one transaction of three statements at READ COMMITTED:
it takes the advisory lock, reads the newest revision when the caller expects one, and inserts.
A step is one statement, a commit or a rollback, so writers interleave between any two of them.
A read sees what is committed when it runs. The lock is held until the transaction ends.

`revision` comes from a sequence: it is drawn at the insert, and a transaction that does not
commit leaves a gap. A call may be cut off at any point (`abort`). The `writer` of a row and the
`base` it expected are no columns: they record which call inserted it.
-/

namespace MailVerdict.Model.PipelineRevisions

open MailVerdict.Computation

variable {Document : Type}

abbrev CallId := ℕ

/-- SOURCE: database/models.py:1585-1597 -/
structure PipelineRevision (Document : Type) where
  revision : ℕ
  document : Document
  note : Option String
  writer : CallId
  base : Option ℤ

/-- SOURCE: pipeline/revisions.py:59-68 -/
structure StaleRevisionError where
  expected : ℤ
  actual : ℕ
deriving DecidableEq

/-- Where a call of `append` is. -/
inductive Phase
  | locking
  | checking
  | inserting
  | committing (revision : ℕ)
  | raising (e : StaleRevisionError)
  | returned (revision : ℕ)
  | raised (e : StaleRevisionError)
  | aborted
deriving DecidableEq

/-- Whether the call's transaction is over. -/
def Phase.ended : Phase → Bool
  | .returned _ | .raised _ | .aborted => true
  | .locking | .checking | .inserting | .committing _ | .raising _ => false

/-- A call of `append` with its arguments. -/
structure Call (Document : Type) where
  document : Document
  note : Option String
  expectedBaseRevision : Option ℤ
  phase : Phase

/-- `rows` are the committed ones, the last inserted first. -/
structure State (Document : Type) where
  rows : List (PipelineRevision Document)
  nextRevision : ℕ
  lock : Option CallId
  calls : CallId → Option (Call Document)

inductive Label (Document : Type)
  | call (id : CallId) (document : Document) (note : Option String)
      (expectedBaseRevision : Option ℤ)
  | lock (id : CallId)
  | check (id : CallId)
  | insert (id : CallId)
  | commit (id : CallId)
  | rollback (id : CallId)
  | abort (id : CallId)

/-- `SELECT revision FROM pipeline_revisions ORDER BY revision DESC LIMIT 1`, 0 where there is
none.
SOURCE: pipeline/revisions.py:142-145 -/
def current (rows : List (PipelineRevision Document)) : ℕ :=
  rows.foldr (fun row n => max row.revision n) 0

namespace State

variable (s : State Document)

def setPhase (id : CallId) (c : Call Document) (p : Phase) : State Document :=
  { s with calls := fun i => if i = id then some { c with phase := p } else s.calls i }

@[simp] theorem setPhase_self (id : CallId) (c : Call Document) (p : Phase) :
    (s.setPhase id c p).calls id = some { c with phase := p } := if_pos rfl

theorem setPhase_of_ne {id i : CallId} (c : Call Document) (p : Phase) (h : i ≠ id) :
    (s.setPhase id c p).calls i = s.calls i := if_neg h

def release (id : CallId) : State Document :=
  { s with lock := if s.lock = some id then none else s.lock }

/-- SOURCE: pipeline/revisions.py:138-140 -/
def takeLock (id : CallId) (c : Call Document) : Option (State Document) :=
  if c.phase = .locking ∧ s.lock = none then
    let next : Phase := if c.expectedBaseRevision.isSome then .checking else .inserting
    some { s.setPhase id c next with lock := some id }
  else none

/-- SOURCE: pipeline/revisions.py:141-147 -/
def check (id : CallId) (c : Call Document) : Option (State Document) :=
  match c.phase, c.expectedBaseRevision with
  | .checking, some expected =>
    if (current s.rows : ℤ) ≠ expected then
      some (s.setPhase id c (.raising ⟨expected, current s.rows⟩))
    else some (s.setPhase id c .inserting)
  | _, _ => none

/-- SOURCE: pipeline/revisions.py:148-155 -/
def insert (id : CallId) (c : Call Document) : Option (State Document) :=
  if c.phase = .inserting then
    some { s.setPhase id c (.committing s.nextRevision) with nextRevision := s.nextRevision + 1 }
  else none

/-- SOURCE: database/connection.py:105-108 -/
def commit (id : CallId) (c : Call Document) : Option (State Document) :=
  match c.phase with
  | .committing revision =>
    some { (s.setPhase id c (.returned revision)).release id with
      rows := ⟨revision, c.document, c.note, id, c.expectedBaseRevision⟩ :: s.rows }
  | _ => none

/-- SOURCE: database/connection.py:109-111 -/
def rollback (id : CallId) (c : Call Document) : Option (State Document) :=
  match c.phase with
  | .raising e => some ((s.setPhase id c (.raised e)).release id)
  | _ => none

/-- The session is lost, and with it what it had not committed. -/
def abort (id : CallId) (c : Call Document) : Option (State Document) :=
  if c.phase.ended = false then some ((s.setPhase id c .aborted).release id) else none

end State

def step (s : State Document) : Label Document → Option (State Document)
  | .call id document note expected =>
    if (s.calls id).isNone then
      some (s.setPhase id ⟨document, note, expected, .locking⟩ .locking)
    else none
  | .lock id => (s.calls id).bind (s.takeLock id)
  | .check id => (s.calls id).bind (s.check id)
  | .insert id => (s.calls id).bind (s.insert id)
  | .commit id => (s.calls id).bind (s.commit id)
  | .rollback id => (s.calls id).bind (s.rollback id)
  | .abort id => (s.calls id).bind (s.abort id)

def start : State Document := ⟨[], 1, none, fun _ => none⟩

def system : TransitionSystem (State Document) (Label Document) where
  init s := s = start
  step := step

end MailVerdict.Model.PipelineRevisions
