import Mathlib.Data.List.Sort
import MailVerdict.Computation.KeyedTable
import MailVerdict.Computation.TransitionSystem

/-!
# The export of token usage

Each paid response is a row of `llm_usage`, written by a transaction of its own: the row's
`created_at` is when the transaction began, its id is taken at the insert, and others see it
from the commit on. A pass sends the rows after the stored position in batches, each as one
`_bulk` request whose documents are created one by one, and stores the position after every
request. Any number of passes may be under way; the advisory lock of the timer is not relied
on here. Elasticsearch's `create` makes a document unless it has one of that `_id`, or
refuses it for a reason of its own.

Times are in microseconds.
-/

namespace MailVerdict.Model.UsageExport

open MailVerdict.Computation

abbrev Time := ℕ

structure Usage where
  purpose : String
  provider : String
  model : String
  inputTokens : ℤ
  cacheReadTokens : ℤ
  cacheWriteTokens : ℤ
  outputTokens : ℤ
deriving DecidableEq

/-- SOURCE: database/models.py:2363-2388 -/
structure LlmUsage where
  id : ℕ
  createdAt : Time
  usage : Usage

/-- SOURCE: database/models.py:2391-2404 -/
structure UsageExportState where
  lastId : ℕ
  lastSuccessAt : Option Time
  lastError : Option String
  lastErrorAt : Option Time

/-- An open transaction of the recorder, with its row's id from the insert on. -/
structure Insert where
  createdAt : Time
  usage : Usage
  id : Option ℕ
deriving DecidableEq

def Insert.row (i : Insert) (id : ℕ) : LlmUsage := ⟨id, i.createdAt, i.usage⟩

/-! ## Documents -/

def app : String := "mail-verdict"

/-- SOURCE: usage/export.py:44 -/
def rowSettle : Time := 60 * 1000000

structure Document where
  timestamp : Time
  app : String
  id : String
  usage : Usage
deriving DecidableEq

/-- SOURCE: usage/export.py:60-76 -/
def document (row : LlmUsage) : Document := ⟨row.createdAt, app, toString row.id, row.usage⟩

/-- SOURCE: usage/export.py:79-81 -/
def documentId (row : LlmUsage) : String := app ++ "-" ++ toString row.id

structure Entry where
  id : String
  document : Document
deriving DecidableEq

def entry (row : LlmUsage) : Entry := ⟨documentId row, document row⟩

/-- What the answer says of one document, where it says anything. -/
structure Item where
  id : Option String
  status : Option ℕ
  failureStore : Option String
  error : Option (Option String × Option String)

/-- SOURCE: usage/export.py:145-147 -/
def Item.refused (outcome : Item) : Bool :=
  !(outcome.status = some 200 || outcome.status = some 201 || outcome.status = some 409) ||
    outcome.failureStore = some "used"

/-- One document of a request; `refusal` is the answer where it is refused. -/
def create (stream : List Entry) (row : LlmUsage) (refusal : Option Item) : List Entry × Item :=
  match refusal with
  | some item => (stream, item)
  | none =>
    if stream.any fun e => e.id = documentId row then
      (stream, ⟨some (documentId row), some 409, none,
        some (some "version_conflict_engine_exception", some "document already exists")⟩)
    else (stream ++ [entry row], ⟨some (documentId row), some 201, none, none⟩)

def createAll (stream : List Entry) : List (LlmUsage × Option Item) → List Entry × List Item
  | [] => (stream, [])
  | (row, refusal) :: rest =>
    let first := create stream row refusal
    let others := createAll first.1 rest
    (others.1, first.2 :: others.2)

/-- What comes back: an exception, or a status with the items of the body. -/
inductive Response
  | raised (error : String)
  | answered (statusCode : ℕ) (text : String) (items : List Item)

def formatted : Option String → String
  | none => "None"
  | some s => s

def refusalText (outcome : Item) : String :=
  let error := outcome.error.getD (none, none)
  "Elasticsearch refused " ++ formatted outcome.id ++ ": " ++ formatted error.1 ++ ": " ++
    formatted error.2

/-- SOURCE: usage/export.py:118-158, 207-210 -/
def bulk (rows : List LlmUsage) : Response → ℕ × Option String
  | .raised error => (0, some error)
  | .answered statusCode text items =>
    if 400 ≤ statusCode then
      (0, some ("Elasticsearch answered HTTP " ++ toString statusCode ++ ": " ++
        String.ofList (text.toList.take 300)))
    else
      let delivered := (items.takeWhile fun item => !item.refused).length
      match items[delivered]? with
      | some outcome => (delivered, some (refusalText outcome))
      | none =>
        if delivered < rows.length then
          (delivered, some ("Elasticsearch answered " ++ toString delivered ++ " of " ++
            toString rows.length ++ " items"))
        else (delivered, none)

/-! ## States -/

inductive Phase
  /-- Before the session of `_settled_batch`. -/
  | idle
  | opened (now : Time)
  | sending (rows : List LlmUsage)
  /-- After a request; `more` when the batch was a full one. -/
  | answered (error : Option String) (more : Bool)
  | recording (error : Option String) (more : Bool) (state : Option UsageExportState)

structure Pass where
  position : ℕ
  phase : Phase

structure Config where
  batchSize : ℕ
  retention : Time

structure State where
  clock : Time
  nextId : ℕ
  rows : KeyedTable LlmUsage.id
  inserts : List Insert
  state : Option UsageExportState
  passes : List Pass
  stream : List Entry
  /-- Every row a request held, with the `_id` it was sent under. -/
  sent : List (LlmUsage × String)
  /-- The rows that were pruned, with the `now()` of the deletion. -/
  pruned : List (LlmUsage × Time)

/-- What becomes of the answer to a request: it is lost, or arrives with its first items. -/
inductive Fate
  | lost (error : String)
  | arrives (statusCode : ℕ) (text : String) (count : ℕ)

inductive Label
  | tick (now : Time)
  | beginInsert (usage : Usage)
  | takeId (insert : Insert)
  | commit (insert : Insert)
  | rollback (insert : Insert)
  | start
  | openBatch (pass : ℕ)
  | read (pass : ℕ)
  | post (pass : ℕ) (refusals : List (Option Item)) (fate : Fate)
  | fetch (pass : ℕ)
  | store (pass : ℕ) (now : Time)
  | crash (pass : ℕ)
  | prune (startedAt : Time)

namespace State

variable (s : State)

/-! ## Inserts -/

def takeId (i : Insert) : State :=
  { s with
    nextId := s.nextId + 1
    inserts := { i with id := some s.nextId } :: s.inserts.erase i }

def commit (i : Insert) (id : ℕ) : Option State :=
  if h : id ∉ s.rows.rows.map LlmUsage.id then
    some { s with rows := s.rows.insert (i.row id) h, inserts := s.inserts.erase i }
  else none

/-! ## Passes -/

def setPass (n : ℕ) (p : Pass) : State := { s with passes := s.passes.set n p }

def endPass (n : ℕ) : State := { s with passes := s.passes.eraseIdx n }

/-- SOURCE: usage/export.py:84-91 -/
def position : ℕ := (s.state.map UsageExportState.lastId).getD 0

/-- SOURCE: usage/export.py:84-91, 198 -/
def start : State :=
  { s with
    state := some (s.state.getD ⟨0, none, none, none⟩)
    passes := s.passes ++ [⟨s.position, .idle⟩] }

/-- SOURCE: usage/export.py:94-109 -/
def settledBatch (now : Time) (afterId limit : ℕ) : List LlmUsage :=
  (((s.rows.rows.filter fun r => afterId < r.id).insertionSort fun a b => a.id ≤ b.id).take
    limit).takeWhile fun r => r.createdAt + rowSettle ≤ now

def Fate.response (items : List Item) : Fate → Response
  | .lost error => .raised error
  | .arrives statusCode text count => .answered statusCode text (items.take count)

/-- The position after a request that delivered the first `delivered` rows of its batch;
`none` for an index past the end. SOURCE: usage/export.py:211-212 -/
def advance (position : ℕ) (rows : List LlmUsage) : ℕ → Option ℕ
  | 0 => some position
  | delivered + 1 => (rows[delivered]?).map LlmUsage.id

/-- SOURCE: usage/export.py:207-216 -/
def post (c : Config) (n : ℕ) (p : Pass) (rows : List LlmUsage) (refusals : List (Option Item))
    (fate : Fate) : State :=
  let created := createAll s.stream (rows.zip refusals)
  let result := bulk rows (Fate.response created.2 fate)
  let t := { s with
    stream := created.1
    sent := s.sent ++ rows.map fun r => (r, documentId r) }
  match advance p.position rows result.1 with
  | none => t.endPass n
  | some position =>
    t.setPass n ⟨position, .answered result.2 (c.batchSize ≤ rows.length)⟩

/-- The state row as `_record_outcome` leaves it: the columns it changes are written, the
others stay. SOURCE: usage/export.py:161-178 -/
def recorded (now : Time) (position : ℕ) (error : Option String) (loaded : UsageExportState)
    (current : UsageExportState) : UsageExportState :=
  { lastId := if position = loaded.lastId then current.lastId else position
    lastSuccessAt := if error = none then some now else current.lastSuccessAt
    lastError := if error = loaded.lastError then current.lastError else error
    lastErrorAt :=
      if error ≠ none then some now
      else if loaded.lastErrorAt = none then current.lastErrorAt else none }

/-- The end of `_record_outcome`; a second insert of the state row fails.
SOURCE: usage/export.py:161-178, 214-220 -/
def store (n : ℕ) (p : Pass) (error : Option String) (more : Bool)
    (loaded : Option UsageExportState) (now : Time) : State :=
  let continued (t : State) : State :=
    if error = none && more then t.setPass n { p with phase := .idle } else t.endPass n
  match loaded, s.state with
  | none, none =>
    continued { s with
      state := some
        (recorded now p.position error ⟨0, none, none, none⟩ ⟨0, none, none, none⟩) }
  | none, some _ => s.endPass n
  | some loaded, current =>
    continued { s with state := current.map (recorded now p.position error loaded) }

/-- SOURCE: usage/export.py:223-229 -/
def prune (c : Config) (startedAt : Time) : State :=
  { s with
    rows := s.rows.filter fun r => startedAt ≤ r.createdAt + c.retention
    pruned := s.pruned ++ (s.rows.rows.filter fun r =>
      !decide (startedAt ≤ r.createdAt + c.retention)).map fun r => (r, startedAt) }

end State

/-- SOURCE: usage/export.py:181-229; usage/recorder.py:58-87 -/
def step (c : Config) (s : State) : Label → Option State
  | .tick now => if s.clock ≤ now then some { s with clock := now } else none
  | .beginInsert usage => some { s with inserts := ⟨s.clock, usage, none⟩ :: s.inserts }
  | .takeId i => if i ∈ s.inserts ∧ i.id = none then some (s.takeId i) else none
  | .commit i => if i ∈ s.inserts then i.id.bind (s.commit i) else none
  | .rollback i =>
    if i ∈ s.inserts then some { s with inserts := s.inserts.erase i } else none
  | .start => some s.start
  | .openBatch n => s.passes[n]?.bind fun p =>
    match p.phase with
    | .idle => some (s.setPass n { p with phase := .opened s.clock })
    | _ => none
  | .read n => s.passes[n]?.bind fun p =>
    match p.phase with
    | .opened now =>
      let rows := s.settledBatch now p.position c.batchSize
      some (if rows = [] then s.endPass n else s.setPass n { p with phase := .sending rows })
    | _ => none
  | .post n refusals fate => s.passes[n]?.bind fun p =>
    match p.phase with
    | .sending rows =>
      if refusals.length = rows.length ∧ ∀ item ∈ refusals.reduceOption, item.refused then
        some (s.post c n p rows refusals fate)
      else none
    | _ => none
  | .fetch n => s.passes[n]?.bind fun p =>
    match p.phase with
    | .answered error more => some (s.setPass n { p with phase := .recording error more s.state })
    | _ => none
  | .store n now => s.passes[n]?.bind fun p =>
    match p.phase with
    | .recording error more loaded => some (s.store n p error more loaded now)
    | _ => none
  | .crash n => s.passes[n]?.map fun _ => s.endPass n
  | .prune startedAt => if startedAt ≤ s.clock then some (s.prune c startedAt) else none

/-- No row yet, and no position; the first id is positive. -/
def system (c : Config) : TransitionSystem State Label where
  init s := 0 < s.nextId ∧ s.rows = .empty ∧ s.inserts = [] ∧ s.state = none ∧ s.passes = [] ∧ s.stream = [] ∧
    s.sent = [] ∧ s.pruned = []
  step := step c

end MailVerdict.Model.UsageExport
