import MailVerdict.Model.EmbeddingCoverage
import Mathlib.Data.List.Sort

/-!
# The embedding gate

A message that arrives gets a row of `message_embeddings`. The worker that brings the row to
`done` or `failed` inserts the message's live run in the same transaction, and a periodic pass
inserts the live runs that are missing. There is one row for a durable key and a model; its
`message_id` is a hint, which an enqueue re-points once the message it names is dead.

What is decided on an earlier read is a step of its own. An enqueue, be it of an arrival or of
one candidate of the sweep, is a job that selects its message, looks the row up, checks the
hint and writes. A pass reads its batch and then inserts one run after the other. The gate
holds the lock of the row it wrote until its transaction ends, and is one step with it.

The mirror, the settings and the glacier change between any two of these. Ids are never reused,
and the header fields of a message never change; a message the glacier brings back has those of
the one it took. Of a batch, the `LIMIT` and the order of the sweep are the label's choice.
Every run has `dedup_key` `'live'`. `reached` records the account and key of each row that was
brought to `done` or `failed`; no statement reads it.
-/

namespace MailVerdict.Model.EmbeddingGate

open MailVerdict.Computation
open Model.Glacier (Uuid Time Platform computeMsgKey GlacierMessage)
open Model.EmbeddingCoverage (RowStatus Database)

abbrev WorkerId := String

/-! ## Rows -/

structure Message extends Glacier.Message where
  createdAt : Time

def Message.key (P : Platform) (m : Message) : Uuid × String :=
  (m.accountId, m.msgKey P)

def Message.identity (P : Platform) (m : Message) : Uuid × String × String :=
  (m.accountId, m.msgKey P, m.fromAddr.getD "")

/-- A folder with its row of `folder_prefs`. -/
structure Folder extends EmbeddingCoverage.Folder where
  specialUse : Option String
  specialUseOverride : Option String
  lastSyncedAt : Option Time

structure PipelineFolderState where
  folderId : Uuid
  backfillCompletedAt : Option Time

structure MessageEmbedding extends EmbeddingCoverage.MessageEmbedding where
  id : Uuid
  claimedBy : Option WorkerId

/-- `uq_message_embeddings_account_msgkey_model` -/
def MessageEmbedding.key (e : MessageEmbedding) : Uuid × String × String :=
  (e.accountId, e.msgKey, e.model)

def terminal : RowStatus → Bool
  | .done | .failed => true
  | .pending | .claimed => false

structure PipelineRun where
  accountId : Uuid
  msgKey : String
  messageId : Uuid
  fromAddr : Option String

def PipelineRun.key (r : PipelineRun) : Uuid × String × String :=
  (r.accountId, r.msgKey, r.fromAddr.getD "")

def Message.run (P : Platform) (m : Message) : PipelineRun :=
  ⟨m.accountId, m.msgKey P, m.id, m.fromAddr⟩

inductive Job
  | selected (m : Message) (model : String)
  | found (m : Message) (embeddingId hint : Uuid)
  | repoint (m : Message) (embeddingId : Uuid)
  | insert (m : Message) (model : String)

structure State where
  now : Time
  nextId : Uuid
  model : String
  maxAgeDays : ℕ
  folders : KeyedTable fun f : Folder => f.id
  folderStates : KeyedTable PipelineFolderState.folderId
  messages : KeyedTable fun m : Message => m.id
  embeddings : KeyedTable MessageEmbedding.key
  runs : KeyedTable PipelineRun.key
  jobs : List Job
  pass : List Message
  reached : List (Uuid × String)

def start (model : String) (maxAgeDays : ℕ) : State where
  now := 0
  nextId := 0
  model := model
  maxAgeDays := maxAgeDays
  folders := KeyedTable.empty
  folderStates := KeyedTable.empty
  messages := KeyedTable.empty
  embeddings := KeyedTable.empty
  runs := KeyedTable.empty
  jobs := []
  pass := []
  reached := []

namespace State

variable (P : Platform) (s : State)

/-- What the statements shared with the coverage counts read. -/
def database : Database P where
  folders := s.folders.view Folder.toFolder fun _ => rfl
  messages := s.messages.view Message.toMessage fun _ => rfl
  glacierMessages := KeyedTable.empty
  embeddings := s.embeddings.view MessageEmbedding.toMessageEmbedding fun _ => rfl

/-- Whether the message a hint names is live. -/
def isLive (messageId : Uuid) : Bool :=
  decide (messageId ∈ (s.database P).liveMessageIds [messageId])

/-! ## The enqueue -/

/-- The row of a new embedding; a row of its key stays in its place. -/
def insertEmbedding (accountId : Uuid) (msgKey : String) (messageId : Option Uuid)
    (model : String) : State :=
  { s with
    nextId := s.nextId + 1
    embeddings := s.embeddings.insertAll
      [{ accountId, msgKey, messageId, model, status := .pending, id := s.nextId
         claimedBy := none }] }

/-- The first statement of `enqueue_one`.
SOURCE: embeddings/repository.py:427-437 -/
def selectArrival (messageId : Uuid) : Option Job :=
  ((s.messages.find? messageId).filter fun m => m.live && !m.isDraft).map (.selected · s.model)

/-- A candidate of the sweep: in scope, with no row of its own, no live sibling holding one.
SOURCE: embeddings/repository.py:241-270 -/
def isMissing (m : Message) : Bool :=
  decide (m.toMessage ∈ (s.database P).scope none) &&
    !(s.database P).ownEmbeddingExists s.model m.toMessage &&
    !(s.database P).siblingHoldsEmbedding s.model m.toMessage

def selectMissing (messageId : Uuid) : Option Job :=
  ((s.messages.find? messageId).filter (s.isMissing P)).map (.selected · s.model)

/-- SOURCE: embeddings/repository.py:289-301, 444-452 -/
def lookUp (m : Message) (model : String) : Option Job :=
  match s.embeddings.find? (m.accountId, m.msgKey P, model) with
  | none => some (.insert m model)
  | some e =>
    match e.messageId with
    | none => some (.repoint m e.id)
    | some hint => if hint = m.id then none else some (.found m e.id hint)

/-- SOURCE: embeddings/repository.py:315-352, 453-460 -/
def checkHint (m : Message) (embeddingId hint : Uuid) : Option Job :=
  if s.isLive P hint then none else some (.repoint m embeddingId)

def repoint (m : Message) (embeddingId : Uuid) : State :=
  { s with
    embeddings := s.embeddings.update (fun e => decide (e.id = embeddingId))
      (fun e => { e with messageId := some m.id }) fun _ => rfl }

/-- The next statement of an enqueue, and what is left of it.
SOURCE: embeddings/repository.py:199-396, 398-475 -/
def advance : Job → State × Option Job
  | .selected m model => (s, s.lookUp P m model)
  | .found m embeddingId hint => (s, s.checkHint P m embeddingId hint)
  | .repoint m embeddingId => (s.repoint m embeddingId, none)
  | .insert m model => (s.insertEmbedding m.accountId (m.msgKey P) (some m.id) model, none)

/-! ## The gate -/

/-- SOURCE: pipeline/enqueue.py:62 -/
def skipFolderSpecialUse : List String := ["sent", "drafts", "trash", "junk", "archive"]

/-- The predicate of `_select_live_eligible_row`.
SOURCE: pipeline/enqueue.py:116-160 -/
def liveEligible (m : Message) : Bool :=
  m.live && !m.isDraft &&
    (match s.folders.find? m.folderId with
      | some f => f.deletedAt.isNone &&
          !skipFolderSpecialUse.contains ((f.specialUseOverride.or f.specialUse).getD "")
      | none => false) &&
    (match (s.folderStates.find? m.folderId).bind PipelineFolderState.backfillCompletedAt with
      | some t => decide (t < m.createdAt)
      | none => false) &&
    (match m.receivedAt with
      | some t => decide (s.now < t + 86400 * s.maxAgeDays)
      | none => false)

/-- `INSERT … ON CONFLICT … DO UPDATE SET message_id`.
SOURCE: pipeline/enqueue.py:247-265, 415-437 -/
def insertRun (r : PipelineRun) : State :=
  { s with
    runs := if h : r.key ∈ s.runs.rows.map PipelineRun.key then
        s.runs.update (fun r' => decide (r'.key = r.key))
          (fun r' => { r' with messageId := r.messageId }) fun _ => rfl
      else s.runs.insert r h }

/-- SOURCE: pipeline/enqueue.py:200-265 -/
def enqueuePipelineRunIfLiveEligible (accountId : Uuid) (messageId : Option Uuid) : State :=
  match (messageId.bind s.messages.find?).filter fun m =>
      decide (m.accountId = accountId) && s.liveEligible m with
  | none => s
  | some m => s.insertRun (m.run P)

def close (e : MessageEmbedding) (status : RowStatus) : State :=
  { s with
    embeddings := s.embeddings.update (fun e' => decide (e'.key = e.key))
      (fun e' => { e' with status := status, claimedBy := none }) fun _ => rfl
    reached := s.reached ++ [(e.accountId, e.msgKey)] }

def held (id : Uuid) (workerId : WorkerId) : Option MessageEmbedding :=
  s.embeddings.rows.find? fun e => decide (e.id = id) && decide (e.status = .claimed) &&
    decide (e.claimedBy = some workerId)

/-- SOURCE: embeddings/repository.py:477-536 -/
def writeResult (id : Uuid) (workerId : WorkerId) (model : String) : Option State :=
  ((s.held id workerId).filter fun e => decide (e.model = model)).map fun e =>
    (s.close e .done).enqueuePipelineRunIfLiveEligible P e.accountId e.messageId

/-- SOURCE: embeddings/repository.py:538-593 -/
def fail (id : Uuid) (workerId : WorkerId) : Option State :=
  (s.held id workerId).map fun e =>
    (s.close e .failed).enqueuePipelineRunIfLiveEligible P e.accountId e.messageId

/-! ## The pass -/

/-- A row of the current model that names the message is at its end. -/
def embedded (m : Message) : Bool :=
  s.embeddings.rows.any fun e => decide (e.accountId = m.accountId) &&
    decide (e.messageId = some m.id) && decide (e.model = s.model) && terminal e.status

def hasRun (m : Message) : Bool :=
  s.runs.rows.any fun r => decide (r.accountId = m.accountId) && decide (r.messageId = m.id)

/-- The messages `_reconcile_once` selects, without its `LIMIT`.
SOURCE: pipeline/enqueue.py:358-392 -/
def candidates : List Message :=
  s.messages.rows.filter fun m => s.liveEligible m && s.embedded m && !s.hasRun m

def receivedOrder (a b : Message) : Prop := a.receivedAt.getD 0 ≤ b.receivedAt.getD 0

instance : DecidableRel receivedOrder := fun a b => by
  unfold receivedOrder; infer_instance

/-- SOURCE: pipeline/enqueue.py:70 -/
def reconcileBatchSize : ℕ := 200

def scan : State :=
  { s with pass := (s.candidates.insertionSort receivedOrder).take reconcileBatchSize }

/-- The insert for the next row of an open pass. -/
def insertNext : Option State :=
  match s.pass with
  | [] => none
  | m :: rest => some ({ s with pass := rest }.insertRun (m.run P))

/-! ## The mirror -/

def setMessage (messageId : Uuid) (f : Message → Message) (hf : ∀ m, (f m).id = m.id) : State :=
  { s with messages := s.messages.update (fun m => decide (m.id = messageId)) f hf }

def mirror (m : Message) : State :=
  { s with
    nextId := s.nextId + 1
    messages := s.messages.insertAll
      [{ m with id := s.nextId, createdAt := s.now, expungedAt := none }] }

/-- SOURCE: pipeline/enqueue.py:304-325 -/
def recordFolderWatermark (folderId : Uuid) : Option State :=
  (s.folders.find? folderId).map fun f =>
    { s with
      folderStates := s.folderStates.put
        ⟨f.id, ((s.folderStates.find? f.id).bind PipelineFolderState.backfillCompletedAt).or
          f.lastSyncedAt⟩ }

/-- The glacier takes a message: the live row goes and no hint names it any longer.
SOURCE: glacier/operations.py:498-522 -/
def toGlacier (messageId : Uuid) : State :=
  let t := s.setMessage messageId (fun m => { m with expungedAt := some s.now }) fun _ => rfl
  { t with
    embeddings := t.embeddings.update (fun e => decide (e.messageId = some messageId))
      (fun e => { e with messageId := none }) fun _ => rfl }

/-- The glacier brings a message back, or withdraws from it: a row of its key that has no hint
is its own again.
SOURCE: glacier/operations.py:670-681, glacier/restore.py:244-250 -/
def fromGlacier (m : Message) : State :=
  { s with
    embeddings := s.embeddings.update
      (fun e => decide (e.messageId = none) && decide (e.accountId = m.accountId) &&
        decide (e.msgKey = m.msgKey P))
      (fun e => { e with messageId := some m.id }) fun _ => rfl }

end State

/-! ## The system -/

inductive Label
  | tick (elapsed : ℕ)
  | configure (model : String) (maxAgeDays : ℕ)
  | folder (f : Folder)
  | folderSynced (folderId : Uuid)
  | mirror (m : Message)
  | move (messageId folderId : Uuid)
  | expunge (messageId : Uuid)
  | revert (messageId : Uuid)
  | purge (messageId : Uuid)
  | toGlacier (messageId : Uuid)
  | fromGlacier (messageId : Uuid)
  | selectArrival (messageId : Uuid)
  | selectMissing (messageId : Uuid)
  | embedGlacier (accountId : Uuid) (msgKey : String)
  | advance (job : ℕ)
  | claim (id : Uuid) (workerId : WorkerId)
  | release (id : Uuid)
  | writeResult (id : Uuid) (workerId : WorkerId) (model : String)
  | fail (id : Uuid) (workerId : WorkerId)
  | prune
  | scan
  | insertNext

/-- The steps of the enqueues, the workers and the pass; the others are those of the mirror, the
settings, the clock and the glacier. -/
def Label.ofGate : Label → Bool
  | .selectArrival _ | .selectMissing _ | .embedGlacier _ _ | .advance _ | .claim _ _
  | .release _ | .writeResult _ _ _ | .fail _ _ | .prune | .scan | .insertNext => true
  | .tick _ | .configure _ _ | .folder _ | .folderSynced _ | .mirror _ | .move _ _ | .expunge _
  | .revert _ | .purge _ | .toGlacier _ | .fromGlacier _ => false

open State

def step (P : Platform) (s : State) : Label → Option State
  | .tick elapsed => some { s with now := s.now + elapsed }
  | .configure model maxAgeDays => some { s with model := model, maxAgeDays := maxAgeDays }
  | .folder f => some { s with folders := s.folders.put f }
  | .folderSynced folderId => s.recordFolderWatermark folderId
  | .mirror m => some (s.mirror m)
  | .move messageId folderId =>
    some (s.setMessage messageId (fun m => { m with folderId := folderId }) fun _ => rfl)
  | .expunge messageId =>
    some (s.setMessage messageId (fun m => { m with expungedAt := some s.now }) fun _ => rfl)
  | .revert messageId =>
    some (s.setMessage messageId (fun m => { m with expungedAt := none }) fun _ => rfl)
  | .purge messageId => some { s with messages := s.messages.erase messageId }
  | .toGlacier messageId => some (s.toGlacier messageId)
  | .fromGlacier messageId =>
    ((s.messages.find? messageId).filter fun m => m.live).map (s.fromGlacier P)
  | .selectArrival messageId =>
    (s.selectArrival messageId).map fun j => { s with jobs := s.jobs ++ [j] }
  | .selectMissing messageId =>
    (s.selectMissing P messageId).map fun j => { s with jobs := s.jobs ++ [j] }
  | .embedGlacier accountId msgKey => some (s.insertEmbedding accountId msgKey none s.model)
  | .advance i =>
    s.jobs[i]?.map fun j =>
      { (s.advance P j).1 with jobs := s.jobs.eraseIdx i ++ (s.advance P j).2.toList }
  | .claim id workerId =>
    some { s with
      embeddings := s.embeddings.update
        (fun e => decide (e.id = id) && decide (e.status = .pending))
        (fun e => { e with status := .claimed, claimedBy := some workerId }) fun _ => rfl }
  | .release id =>
    some { s with
      embeddings := s.embeddings.update
        (fun e => decide (e.id = id) && decide (e.status = .claimed))
        (fun e => { e with status := .pending, claimedBy := none }) fun _ => rfl }
  | .writeResult id workerId model => s.writeResult P id workerId model
  | .fail id workerId => s.fail P id workerId
  | .prune =>
    some { s with
      embeddings := s.embeddings.filter fun e =>
        decide (e.model = s.model) || decide (e.status = .claimed) }
  | .scan => if s.pass = [] then some s.scan else none
  | .insertNext => s.insertNext P

def system (P : Platform) : TransitionSystem State Label where
  init s := ∃ model maxAgeDays, s = start model maxAgeDays
  step := step P

end MailVerdict.Model.EmbeddingGate
