import Mathlib.Data.List.Sort
import Mathlib.Data.Finset.Union
import MailVerdict.Computation.TransitionSystem
import MailVerdict.Model.MailIntents

/-!
# The intent ledger and its drainer

The ledger (`ui/src/lib/intent-ledger.ts`) keeps the intents, the undo stack and the undo
requests; the drainer (`ui/src/lib/intent-drainer.ts`) sends the intents, settles each by
what comes back and carries out the undo requests. Both are here with what the person
does to intents (`ui/src/hooks/use-mail-intents.ts`), requests and answers under way, and
the server's record of keys (`mail_actions/submissions.py`).

The ledger is the one in local storage, into which every tab merges each change as it
makes it; whichever tab sends takes the steps of the drainer. A step carries the clock it
reads. `applied` lists what the server first answered each key, `reversals` every
reversal ever recorded; no step reads either. What the server wrote, which an answer need not
tell, stands beside a run (`Served`).
-/

namespace MailVerdict.Model.IntentLedger

open MailVerdict.Computation Model.MailActions Model.MailIntents

/-! ## The ledger -/

def doneRetentionMs : Time := 10 * 60000

def failedRetentionMs : Time := 24 * 60 * 60000

def pendingTtlMs : Time := 60 * 60000

def maxRetryAttempts : ℕ := 8

def undoStackLimit : ℕ := 20

def undoMaxAgeMs : Time := 30 * 60000

/-- A step the person can take back, with its own copies of the intents.
SOURCE: ui/src/lib/mail-intents.ts:124-134 -/
structure UndoEntry where
  id : ℕ
  createdAt : Time
  intents : List MailIntent

/-- SOURCE: ui/src/lib/mail-intents.ts:136-143 -/
structure UndoRequest where
  id : ℕ
  entry : UndoEntry

/-- SOURCE: ui/src/lib/intent-ledger.ts:38-44 -/
structure Ledger where
  intents : KeyedTable MailIntent.id
  undo : List UndoEntry
  undoRequests : List UndoRequest

/-- SOURCE: ui/src/lib/mail-intents.ts:788-792 -/
def pruneUndo (entries : List UndoEntry) (now : Time) : List UndoEntry :=
  let young := entries.filter fun e => decide (now - e.createdAt ≤ undoMaxAgeMs)
  young.drop (young.length - undoStackLimit)

/-- Every change is written at once, and what is written has its undo steps pruned.
SOURCE: ui/src/lib/intent-ledger.ts:129-185 -/
def commit (L : Ledger) (now : Time) : Ledger := { L with undo := pruneUndo L.undo now }

/-- What an update of an intent carries into its copy in an undo step.
SOURCE: ui/src/lib/intent-ledger.ts:265-270 -/
def carry (updated copy : MailIntent) : MailIntent :=
  { copy with
    state := updated.state, doneAt := updated.doneAt, sources := updated.sources,
    landedFolderId := updated.landedFolderId, skippedIds := updated.skippedIds,
    notApplied := updated.notApplied, generation := updated.generation,
    attempts := updated.attempts, firstSentAt := updated.firstSentAt,
    updatedAt := updated.updatedAt }

def patched (patch : MailIntent → MailIntent) (now : Time) (i : MailIntent) : MailIntent :=
  { patch i with id := i.id, updatedAt := now }

theorem patched_id (patch : MailIntent → MailIntent) (now : Time) (i : MailIntent) :
    (patched patch now i).id = i.id := rfl

/-- Change one intent, and its copy in any undo step.
SOURCE: ui/src/lib/intent-ledger.ts:259-281 -/
def updateIntent (L : Ledger) (now : Time) (id : IntentId) (patch : MailIntent → MailIntent) :
    Ledger :=
  match L.intents.find? id with
  | none => L
  | some current =>
    let updated := patched patch now current
    commit
      { L with
        intents := L.intents.update (fun i => decide (i.id = id)) (patched patch now)
          (patched_id patch now)
        undo := L.undo.map fun e =>
          { e with intents := e.intents.map fun c => if c.id = id then carry updated c else c } }
      now

/-- Start an intent over as a new generation; `resend` keeps the record of an earlier
request that may have landed.
SOURCE: ui/src/lib/intent-ledger.ts:283-295 -/
def restart (resend : Bool) (now : Time) (i : MailIntent) : MailIntent :=
  { i with
    state := .pending, generation := i.generation + 1, notBefore := now, approvedAt := some now,
    attempts := if resend then i.attempts else 0,
    firstSentAt := if resend then i.firstSentAt else none, refused := false }

def restartIntent (L : Ledger) (now : Time) (id : IntentId) (resend : Bool) : Ledger :=
  updateIntent L now id (restart resend now)

/-- Record intents, and the undo step they make up if there is one.
SOURCE: ui/src/lib/intent-ledger.ts:222-257 -/
def addIntents (L : Ledger) (now : Time) (intents : List MailIntent)
    (entry : Option UndoEntry) : Ledger :=
  commit { L with intents := L.intents.insertAll intents, undo := L.undo ++ entry.toList } now

/-- SOURCE: ui/src/lib/intent-ledger.ts:297-307 -/
def retireIntents (L : Ledger) (now : Time) (ids : List IntentId) : Ledger :=
  commit { L with intents := L.intents.filter fun i => decide (i.id ∉ ids) } now

/-- Ask for an undo step to be carried out, and take it off the stack: `takeUndo` and
`requestUndo`.
SOURCE: ui/src/lib/intent-ledger.ts:309-342, ui/src/hooks/use-mail-intents.ts:199-211 -/
def requestUndo (L : Ledger) (now : Time) (entryId requestId : ℕ) : Ledger :=
  let live := pruneUndo L.undo now
  match live.find? fun e => decide (e.id = entryId) with
  | none => { L with undo := live }
  | some entry =>
    { L with
      undo := live.filter fun e => decide (e.id ≠ entryId)
      undoRequests := L.undoRequests ++ [⟨requestId, entry⟩] }

/-- Forget an undo step without undoing it.
SOURCE: ui/src/lib/intent-ledger.ts:354-365 -/
def dropUndoFor (L : Ledger) (id : IntentId) : Ledger :=
  { L with undo := L.undo.filter fun e => !e.intents.any fun c => decide (c.id = id) }

/-- Whether the sweep retires an intent.
SOURCE: ui/src/lib/intent-ledger.ts:367-386 -/
def expired (now : Time) (i : MailIntent) : Bool :=
  (decide (i.state = .done) && decide (doneRetentionMs < now - i.doneAt.getD now)) ||
    ((decide (i.state = .failed) || decide (i.state = .held)) &&
      decide (failedRetentionMs < now - i.updatedAt))

def sweepLedger (L : Ledger) (now : Time) : Ledger :=
  commit { L with intents := L.intents.filter fun i => !expired now i } now

/-! ## Sending -/

/-- Pending or on its way: not settled, nor given up.
SOURCE: ui/src/lib/mail-intents.ts:655-656 -/
def unsettled (i : MailIntent) : Bool :=
  decide (i.state = .pending) || decide (i.state = .inflight) || decide (i.state = .held)

/-- By creation, then by id.
SOURCE: ui/src/lib/mail-intents.ts:234-236 -/
def byCreation (a b : MailIntent) : Prop :=
  a.createdAt < b.createdAt ∨ a.createdAt = b.createdAt ∧ a.id ≤ b.id

instance : DecidableRel byCreation := fun _ _ => inferInstanceAs (Decidable (_ ∨ _ ∧ _))

section Sendable

variable (all : List MailIntent) (now : Time)

/-- The scan of `sendableIntents`: the accounts with a request out or chosen, and the
messages an earlier intent waits with. -/
def scanSendable (busy claimed : List Uuid) : List MailIntent → List MailIntent
  | [] => []
  | i :: rest =>
    if unsettled i then
      let claimed' := i.messages.map IntentMessage.id ++ claimed
      if i.state ≠ .pending ∨ i.accountId ∈ busy ∨ now < i.notBefore ∨
          (∃ j ∈ all, unsettled j = true ∧ i.reverses = some j.id) ∨
          ∃ m ∈ i.messages, m.id ∈ claimed then
        scanSendable busy claimed' rest
      else i :: scanSendable (i.accountId :: busy) claimed' rest
    else scanSendable busy claimed rest

/-- The intents that may be sent now, at most one per account.
SOURCE: ui/src/lib/mail-intents.ts:646-675 -/
def sendableIntents : List MailIntent :=
  scanSendable all now
    ((all.filter fun i => decide (i.state = .inflight)).map MailIntent.accountId) []
    (all.insertionSort byCreation)

end Sendable

/-- To be held until the person confirms it.
SOURCE: ui/src/lib/mail-intents.ts:639-644 -/
def stale (now : Time) (i : MailIntent) : Bool :=
  decide (i.state = .pending) && decide (pendingTtlMs < now - i.approvedAt.getD i.createdAt)

inductive FailureKind
  | retry
  | network
  | terminal
  | gone
deriving DecidableEq

/-- SOURCE: ui/src/lib/mail-intents.ts:607-620 -/
def classifyFailure : Option HttpError → FailureKind
  | none => .network
  | some status =>
    if status = 404 then .gone
    else if status = 408 ∨ status = 425 ∨ status = 429 ∨ 500 ≤ status then .retry
    else .terminal

/-- SOURCE: ui/src/lib/mail-intents.ts:622-627 -/
def retryDelay (attempts : ℕ) (kind : FailureKind) : Time :=
  min (1000 * 2 ^ (attempts - 1)) (if kind = .network then 10000 else 30000)

/-! ## What comes back -/

/-- An answer of one of the two endpoints, or the status of an error. -/
inductive Response
  | single (response : MessageActionResponse)
  | bulk (response : BulkActionResponse)
  | error (status : HttpError)

/-- Whether the answer is one of the endpoint an intent is sent to. -/
def Response.fits (i : MailIntent) : Response → Bool
  | single _ => !i.bulk
  | bulk _ => i.bulk
  | error _ => true

/-- `_succeeded`: an answer `run_once` keeps.
SOURCE: mail_actions/submissions.py:221-224 -/
def Response.succeeded : Response → Bool
  | single r => r.success
  | bulk r => r.success
  | error _ => false

/-- What the drainer makes of an answer.
SOURCE: ui/src/lib/intent-drainer.ts:254-305 -/
def outcomeOf (i : MailIntent) : Response → Outcome
  | .single r =>
    if !r.success then .refused
    else .answered r.applied r.folderId
      (if r.applied then [] else (i.messages.map IntentMessage.id).take 1) []
  | .bulk r =>
    if !r.success && decide (r.affectedCount = 0) then .refused
    else .answered (decide (r.skippedIds.length < i.messages.length)) r.targetFolderId
      r.skippedIds r.sources
  | .error status => .error status

/-- SOURCE: ui/src/lib/intent-drainer.ts:381-385 -/
def settleFailed (L : Ledger) (now : Time) (id : IntentId) (refused : Bool) : Ledger :=
  updateIntent (if refused then dropUndoFor L id else L) now id fun i =>
    { i with state := .failed, refused := refused }

/-- `settleError`; what no longer exists ends without a word.
SOURCE: ui/src/lib/intent-drainer.ts:340-365 -/
def settleError (L : Ledger) (now : Time) (current : MailIntent) (status : Option HttpError) :
    Ledger :=
  let kind := classifyFailure status
  if kind = .gone then
    updateIntent (dropUndoFor L current.id) now current.id fun i =>
      { i with
        state := .done, doneAt := some now, notApplied := true,
        skippedIds := i.messages.map IntentMessage.id, messages := [] }
  else if kind = .terminal ∨ kind = .retry ∧ maxRetryAttempts ≤ current.attempts then
    settleFailed L now current.id (decide (kind = .terminal))
  else
    updateIntent L now current.id fun i =>
      { i with state := .pending, notBefore := now + retryDelay i.attempts kind }

/-- An answer of the server settles the intent.
SOURCE: ui/src/lib/intent-drainer.ts:323-331, 367-379 -/
def settle (L : Ledger) (now : Time) (current : MailIntent) : Outcome → Ledger
  | .answered applied landed skipped sources =>
    updateIntent (if applied then L else dropUndoFor L current.id) now current.id fun i =>
      settleDone i now applied landed skipped sources
  | .refused => settleFailed L now current.id true
  | .error status => settleError L now current (some status)

/-- The intent as the ledger holds it now, if it is still this generation.
SOURCE: ui/src/lib/intent-drainer.ts:334-338 -/
def currentIntent (L : Ledger) (sent : MailIntent) : Option MailIntent :=
  (L.intents.find? sent.id).filter fun i => decide (i.generation = sent.generation)

/-! ## Carrying out an undo request -/

/-- What may have landed unanswered is sent again first.
SOURCE: ui/src/lib/intent-drainer.ts:208-213 -/
def resendUnanswered (now : Time) (L : Ledger) (copies : List MailIntent) : Ledger :=
  copies.foldl (fun L copy =>
    match L.intents.find? copy.id with
    | none => L
    | some live =>
      if mayHaveLanded live && (decide (live.state = .held) || decide (live.state = .failed)) then
        restartIntent L now live.id true
      else L) L

/-- SOURCE: ui/src/lib/intent-drainer.ts:237-244 -/
def undoRequestReady (L : Ledger) (request : UndoRequest) : Bool :=
  request.entry.intents.all fun copy =>
    match L.intents.find? copy.id with
    | none => true
    | some live => decide (live.state ≠ .inflight) && !mayHaveLanded live

/-- The reversals of one intent of a request: none while the ledger has it undone.
SOURCE: ui/src/lib/intent-drainer.ts:219-230 -/
def reversalsFor (L : Ledger) (now : Time) (newId : ℕ → IntentId) (copy : MailIntent) :
    List MailIntent :=
  match L.intents.find? copy.id with
  | none => reversalsOf copy now newId
  | some live =>
    if live.state ≠ .done then [] else reversalsOf (mergedForUndo copy live) now newId

/-- The reversals of a request; `next` is the next new key. -/
def reversalsOfAll (L : Ledger) (now : Time) : IntentId → List MailIntent → List MailIntent
  | _, [] => []
  | next, copy :: copies =>
    let reversals := reversalsFor L now (fun n => next + n) copy
    reversals ++ reversalsOfAll L now (next + reversals.length) copies

/-- The ledger with a request carried out.
SOURCE: ui/src/lib/intent-drainer.ts:215-234 -/
def consume (L : Ledger) (now : Time) (request : UndoRequest) (reversals : List MailIntent) :
    Ledger :=
  let retire := (request.entry.intents.filter fun c => (L.intents.find? c.id).isSome).map
    MailIntent.id
  let L := retireIntents (addIntents L now reversals none) now retire
  { L with undoRequests := L.undoRequests.filter fun r => decide (r.id ≠ request.id) }

/-! ## Runs -/

/-- A request on its way: the intent as it was sent, whether the tab still waits for
the answer, and the answer once the server gave it. -/
structure Call where
  intent : MailIntent
  waiting : Bool
  answer : Option Response

/-- A request the server carried out, and its answer. -/
structure Submission where
  request : MailIntent
  response : Response

def Submission.outcome (x : Submission) : Outcome := outcomeOf x.request x.response

structure State where
  ledger : Ledger
  calls : List Call
  record : IntentId → Option Submission
  nextId : ℕ
  applied : IntentId → Option Submission
  reversals : List MailIntent

/-- What an action is taken on; the messages are as the person last saw them. -/
structure Draft where
  accountId : Uuid
  targetFolderId : Option Uuid
  messages : List IntentMessage
  bulk : Bool
  expandThreads : Bool
  staysInPlace : Bool

inductive Label
  | act (action : Action) (drafts : List Draft) (undoable : Bool)
  | hold (id : IntentId)
  | send (id : IntentId)
  | serve (n : ℕ) (response : Response)
  | deliver (n : ℕ)
  | lose (n : ℕ) (status : Option HttpError)
  | takeOver
  | recover
  | retry (id : IntentId)
  | sendHeld (id : IntentId)
  | discard (id : IntentId)
  | undo (entry : ℕ)
  | carryOut (request : ℕ)
  | sweep

/-- SOURCE: ui/src/hooks/use-mail-intents.ts:292-312 -/
def newIntent (now : Time) (id : IntentId) (action : Action) (d : Draft) : MailIntent where
  id := id
  accountId := d.accountId
  action := action
  targetFolderId := d.targetFolderId
  messages := d.messages
  bulk := d.bulk
  expandThreads := d.expandThreads
  staysInPlace := d.staysInPlace
  createdAt := now
  state := .pending
  attempts := 0
  notBefore := now
  generation := 0
  updatedAt := now

/-- `request_fingerprint`: whether two intents make the same request.
SOURCE: mail_actions/submissions.py:74-88 -/
def sameRequest (i j : MailIntent) : Bool :=
  decide (i.bulk = j.bulk) && decide (i.accountId = j.accountId) &&
    decide (bulkRequest i = bulkRequest j)

/-- Whether an answer reports that the request was carried out. -/
def answers (i : MailIntent) (r : Response) : Bool :=
  match outcomeOf i r with
  | .answered _ _ _ _ => true
  | .refused | .error _ => false

namespace State

variable (s : State)

/-- Record the intents one user action makes. An undo step is kept where there is
something to take back.
SOURCE: ui/src/hooks/use-mail-intents.ts:267-368 -/
def act (now : Time) (action : Action) (drafts : List Draft) (undoable : Bool) : State :=
  let intents := drafts.zipIdx.map fun d => newIntent now (s.nextId + d.2) action d.1
  let entry : Option UndoEntry :=
    if undoable && decide (action ≠ .expunge) && intents.any fun i => !i.staysInPlace then
      some ⟨s.nextId + drafts.length, now, intents⟩
    else none
  { s with
    ledger := addIntents s.ledger now intents entry
    nextId := s.nextId + drafts.length + 1 }

/-- SOURCE: ui/src/lib/intent-drainer.ts:307-312 -/
def send (now : Time) (i : MailIntent) : State :=
  { s with
    ledger := updateIntent s.ledger now i.id fun i =>
      { i with
        state := .inflight, attempts := i.attempts + 1,
        firstSentAt := some (i.firstSentAt.getD now) }
    calls := s.calls ++ [⟨i, true, none⟩] }

/-- The answer of `run_once` to a request that gets as far as the server: a key with a
recorded answer is answered from the record, or refused for another request.
SOURCE: mail_actions/submissions.py:91-180 -/
def answerFor (request : MailIntent) (response : Response) : Response :=
  match s.record request.id with
  | none => response
  | some x => if sameRequest x.request request then x.response else .error 409

/-- `run_once` on a request that gets as far as the server; `response` is what carrying
it out comes to, and is recorded unless it failed. -/
def serve (n : ℕ) (call : Call) (response : Response) : State :=
  let i := call.intent
  let answered : State :=
    { s with calls := s.calls.set n { call with answer := some (s.answerFor i response) } }
  match s.record i.id with
  | some _ => answered
  | none =>
    { answered with
      record :=
        if response.succeeded then Function.update s.record i.id (some ⟨i, response⟩)
        else s.record
      applied :=
        if (s.applied i.id).isNone && answers i response then
          Function.update s.applied i.id (some ⟨i, response⟩)
        else s.applied }

/-- An answer arrives, or the connection fails or something in between answers with a
status: the intent is settled if it is still the one that was sent. -/
def settled (now : Time) (n : ℕ) (call : Call)
    (how : Ledger → Time → MailIntent → Ledger) : State :=
  { s with
    calls := s.calls.set n { call with waiting := false }
    ledger := match currentIntent s.ledger call.intent with
      | none => s.ledger
      | some current => how s.ledger now current }

/-- Give up on an intent; what may have landed is undone instead.
SOURCE: ui/src/hooks/use-mail-intents.ts:227-243 -/
def discard (now : Time) (i : MailIntent) : State :=
  if mayHaveLanded i then
    let copy :=
      ((s.ledger.undo.flatMap UndoEntry.intents).find? fun c => decide (c.id = i.id)).getD i
    let L := dropUndoFor s.ledger i.id
    let entry : UndoEntry := ⟨s.nextId, now, [{ i with messages := copy.messages }]⟩
    { s with
      ledger := commit { L with undoRequests := L.undoRequests ++ [⟨s.nextId + 1, entry⟩] } now
      nextId := s.nextId + 2 }
  else { s with ledger := retireIntents s.ledger now [i.id] }

/-- One undo request of `processUndoRequests`.
SOURCE: ui/src/lib/intent-drainer.ts:198-235 -/
def carryOut (now : Time) (request : UndoRequest) : State :=
  let L := resendUnanswered now s.ledger request.entry.intents
  if undoRequestReady L request then
    let reversals := reversalsOfAll L now s.nextId request.entry.intents
    { s with
      ledger := consume L now request reversals
      nextId := s.nextId + reversals.length
      reversals := s.reversals ++ reversals }
  else { s with ledger := L }

/-- A patch of every intent that satisfies `p`. -/
def patchAll (now : Time) (p : MailIntent → Bool) (patch : MailIntent → MailIntent) : State :=
  { s with
    ledger := ((s.ledger.intents.rows.filter p).map MailIntent.id).foldl
      (fun L id => updateIntent L now id patch) s.ledger }

end State

def step (s : State) : Time × Label → Option State
  | (now, .act action drafts undoable) => some (s.act now action drafts undoable)
  | (now, .hold id) => ((s.ledger.intents.find? id).filter (stale now)).map fun _ =>
    { s with ledger := updateIntent s.ledger now id fun i => { i with state := .held } }
  | (now, .send id) =>
    ((sendableIntents s.ledger.intents.rows now).find? fun i => decide (i.id = id)).map
      (s.send now)
  | (_, .serve n response) =>
    (s.calls[n]?.filter fun c => c.answer.isNone && response.fits c.intent).map fun c =>
      s.serve n c response
  | (now, .deliver n) =>
    (s.calls[n]?.filter Call.waiting).bind fun c => c.answer.map fun response =>
      s.settled now n c fun L now current => settle L now current (outcomeOf c.intent response)
  | (now, .lose n status) =>
    (s.calls[n]?.filter Call.waiting).map fun c =>
      s.settled now n c fun L now current => settleError L now current status
  | (now, .takeOver) => some (s.patchAll now (fun i => decide (i.state = .inflight))
      fun i => { i with state := .pending })
  | (now, .recover) => some (s.patchAll now
      (fun i => decide (i.state = .pending) && decide (now < i.notBefore))
      fun i => { i with notBefore := now })
  | (now, .retry id) => (s.ledger.intents.find? id).map fun i =>
    { s with ledger := restartIntent s.ledger now id (mayHaveLanded i) }
  | (now, .sendHeld id) => (s.ledger.intents.find? id).map fun _ =>
    { s with ledger := restartIntent s.ledger now id true }
  | (now, .discard id) => (s.ledger.intents.find? id).map (s.discard now)
  | (now, .undo entry) => some
      { s with ledger := requestUndo s.ledger now entry s.nextId, nextId := s.nextId + 1 }
  | (now, .carryOut request) =>
    (s.ledger.undoRequests.find? fun r => decide (r.id = request)).map (s.carryOut now)
  | (now, .sweep) => some { s with ledger := sweepLedger s.ledger now }

def start : State where
  ledger := ⟨KeyedTable.empty, [], []⟩
  calls := []
  record := fun _ => none
  nextId := 0
  applied := fun _ => none
  reversals := []

def system : TransitionSystem State (Time × Label) where
  init s := s = start
  step := step

/-! ## What the server wrote -/

/-- What an attempt comes to that only reads as a refusal: its status, or an answer that did
nothing, has the intent marked as refused. -/
def refuses : Outcome → Bool
  | .answered _ _ _ _ => false
  | .refused => true
  | .error status => decide (classifyFailure (some status) = .terminal)

def reportsApplied (i : MailIntent) (r : Response) : Bool :=
  match outcomeOf i r with
  | .answered applied _ _ _ => applied
  | .refused | .error _ => false

/-- A run with what its requests came to: the keys under which the server wrote, and the
requests that something in between refused in its place. No step reads either. -/
structure Served where
  state : State
  written : IntentId → Bool
  turnedAway : ℕ → Bool

/-- One step. `wrote` is whether a request that is carried out changes anything, whatever it is
then answered: a ruling is recorded, and the mail may be moved, before the answer is an error.
SOURCE: mail_actions/submissions.py:91-180; spam/feedback.py:177-195, 254-280 -/
def Served.step (s : Served) : (Time × Label) × Bool → Option Served
  | ((now, l), wrote) =>
    (IntentLedger.step s.state (now, l)).map fun t =>
      match l with
      | .serve n response =>
        { s with
          state := t
          written := match s.state.calls[n]? with
            | some c =>
              if (s.state.record c.intent.id).isNone &&
                  (wrote || reportsApplied c.intent response) then
                Function.update s.written c.intent.id true
              else s.written
            | none => s.written }
      | .lose n status =>
        { s with
          state := t
          turnedAway :=
            if classifyFailure status = .terminal then Function.update s.turnedAway n true
            else s.turnedAway }
      | _ => { s with state := t }

def servedSystem : TransitionSystem Served ((Time × Label) × Bool) where
  init s := s = ⟨start, fun _ => false, fun _ => false⟩
  step := Served.step

end MailVerdict.Model.IntentLedger

/-!
# Two tabs' copies of the ledger

Every tab keeps the intents and the ids of those it knows to be retired, and merges what
another tab wrote into its own (`mergeIntents`): of two copies of one intent the more
advanced one stays, and retired intents go. A retired id is remembered for a day. The undo
steps and requests of the ledger, which are merged beside the intents, are left out.
-/

namespace MailVerdict.Model.LedgerMerge

open Model.MailActions Model.MailIntents Model.IntentLedger

/-- SOURCE: ui/src/lib/mail-intents.ts:796-801 -/
def stateRank : IntentState → ℕ
  | .pending => 0
  | .inflight => 0
  | .held => 1
  | .done => 2
  | .failed => 2

/-- SOURCE: ui/src/lib/mail-intents.ts:838-844 -/
def outranks (a b : MailIntent) : Bool :=
  if a.generation ≠ b.generation then b.generation < a.generation
  else if stateRank a.state ≠ stateRank b.state then stateRank b.state < stateRank a.state
  else b.updatedAt < a.updatedAt

/-- `Map.set`: the entry of a key is replaced where it stands. -/
def setIntent (merged : List MailIntent) (intent : MailIntent) : List MailIntent :=
  if merged.any fun i => i.id = intent.id then
    merged.map fun i => if i.id = intent.id then intent else i
  else merged ++ [intent]

/-- One round of the loop. SOURCE: ui/src/lib/mail-intents.ts:813-817 -/
def mergeStep (retired : Finset IntentId) (merged : List MailIntent) (intent : MailIntent) :
    List MailIntent :=
  if intent.id ∈ retired then merged
  else
    match merged.find? fun i => i.id = intent.id with
    | none => setIntent merged intent
    | some held => if outranks intent held then setIntent merged intent else merged

/-- SOURCE: ui/src/lib/mail-intents.ts:803-819 -/
def mergeIntents (ours theirs : List MailIntent) (retired : Finset IntentId) : List MailIntent :=
  ((ours ++ theirs).foldl (mergeStep retired) []).insertionSort byCreation

/-- SOURCE: ui/src/lib/mail-intents.ts:162, ui/src/lib/intent-ledger.ts:36 -/
def retiredMemoryMs : Time := 24 * 60 * 60000

/-- What a tab holds, or has stored: the intents, and the retired ids with when each was
retired. -/
structure Holding where
  intents : List MailIntent
  retired : List (IntentId × Time)

def Holding.retiredIds (h : Holding) : Finset IntentId := (h.retired.map Prod.fst).toFinset

/-- SOURCE: ui/src/lib/intent-ledger.ts:128-146 -/
def absorb (now : Time) (own stored : Holding) : Holding :=
  let young := stored.retired.filter fun e =>
    decide (now < e.2 + retiredMemoryMs) && !own.retired.any fun r => r.1 = e.1
  let retired := own.retired ++ young
  { intents := mergeIntents own.intents stored.intents (retired.map Prod.fst).toFinset
    retired := retired }

/-- SOURCE: ui/src/lib/intent-ledger.ts:148-152 -/
def write (now : Time) (own : Holding) (stored : Option Holding) : Holding :=
  let remembered := { own with
    retired := own.retired.filter fun e => decide (now < e.2 + retiredMemoryMs) }
  match stored with
  | none => remembered
  | some stored => absorb now remembered stored

end MailVerdict.Model.LedgerMerge
