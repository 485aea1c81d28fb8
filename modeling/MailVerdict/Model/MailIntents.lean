import MailVerdict.Model.MailActions

/-!
# Mail intents and their undo

Every action a person takes on mail is a `MailIntent`: the messages as the person
saw them, and what the server answered once it has. This module has the intent
(`ui/src/lib/mail-intents.ts`), the request the drainer makes of it, how an answer
settles it (`ui/src/lib/intent-drainer.ts`) and the intents an undo sends for it
(`reversalsOf`). Row snapshots and the texts of errors are for the screen only and
left out.
-/

namespace MailVerdict.Model.MailIntents

open Model.MailActions

/-- Also the idempotency key of the intent's request. -/
abbrev IntentId := ℕ

/-- SOURCE: ui/src/lib/mail-intents.ts:44-53 -/
inductive IntentState
  | pending
  | inflight
  | done
  | failed
  | held
deriving DecidableEq

/-- One message an intent acts on, as it looked when the action was taken.
SOURCE: ui/src/lib/mail-intents.ts:55-73 -/
structure IntentMessage where
  id : Uuid
  folderId : Option Uuid
  isSeen : Bool
  isFlagged : Bool
  threadId : Option Uuid
  listedAt : Option Time
deriving DecidableEq

/-- SOURCE: ui/src/lib/mail-intents.ts:75-134 -/
structure MailIntent where
  id : IntentId
  accountId : Uuid
  action : Action
  targetFolderId : Option Uuid := none
  messages : List IntentMessage
  bulk : Bool
  expandThreads : Bool := false
  staysInPlace : Bool := false
  createdAt : Time
  state : IntentState
  attempts : ℕ
  notBefore : Time
  firstSentAt : Option Time := none
  doneAt : Option Time := none
  notApplied : Bool := false
  skippedIds : List Uuid := []
  landedFolderId : Option Uuid := none
  sources : List (Uuid × Uuid) := []
  reverses : Option IntentId := none
  approvedAt : Option Time := none
  refused : Bool := false
  generation : ℕ
  updatedAt : Time
deriving DecidableEq

/-- SOURCE: ui/src/lib/mail-intents.ts:192-199 -/
def leavesFolder : Action → Bool
  | .move | .archive | .trash | .expunge | .spam | .notSpam => true
  | .markRead | .markUnread | .flag | .unflag => false

/-- Whether a request of the intent may have been applied with its answer lost.
SOURCE: ui/src/lib/mail-intents.ts:624-632 -/
def mayHaveLanded (i : MailIntent) : Bool :=
  decide (i.state ≠ .done) && decide (0 < i.attempts) && !i.refused

/-! ## The request -/

/-- The guards of a request; in a JavaScript object the last entry of a key stays,
so the list is looked up from its end.
SOURCE: ui/src/lib/mail-intents.ts:694-712 -/
def expectedFolderIds (i : MailIntent) : List (Uuid × Uuid) :=
  if leavesFolder i.action || i.reverses.isSome then
    (i.messages.filterMap fun m => m.folderId.map fun f => (m.id, f)).reverse
  else []

/-- How recent a conversation member may be: the newest list an intent's message was
read from. -/
def expandThreadsThrough (i : MailIntent) : Option Time :=
  if i.expandThreads then (i.messages.filterMap IntentMessage.listedAt).max? else none

/-- The bulk request of an intent.
SOURCE: ui/src/lib/intent-drainer.ts:337-349 -/
def bulkRequest (i : MailIntent) : BulkActionRequest where
  action := i.action
  targetFolderId := i.targetFolderId
  ids := i.messages.map IntentMessage.id
  expandThreads := i.expandThreads
  expandThreadsThrough := expandThreadsThrough i
  expectedFolderIds := expectedFolderIds i

/-- What the drainer makes of an answer: the answer of a request that was applied or
found nothing to do, a refusal, or an HTTP error.
SOURCE: ui/src/lib/intent-drainer.ts:307-314 -/
inductive Outcome
  | answered (applied : Bool) (landedFolderId : Option Uuid) (skippedIds : List Uuid)
      (sources : List (Uuid × Uuid))
  | refused
  | error (status : HttpError)

section Request

variable (accounts : Uuid → Account)

/-- The request of an intent carried out: the messages after it and what the drainer
makes of the answer.
SOURCE: ui/src/lib/intent-drainer.ts:316-369 -/
def request (S : Messages) (i : MailIntent) : Messages × Outcome :=
  if i.bulk then
    let result := applyBulkAction accounts i.accountId S (bulkRequest i)
    match result.2 with
    | .error status => (result.1, .error status)
    | .ok response =>
      if !response.success && decide (response.affectedCount = 0) then (result.1, .refused)
      else
        (result.1, .answered (decide (response.skippedIds.length < i.messages.length))
          response.targetFolderId response.skippedIds response.sources)
  else
    match i.messages with
    | [] => (S, .refused)
    | m :: _ =>
      let result := applyAndLocate accounts S m.id
        ⟨i.action, i.targetFolderId, (expectedFolderIds i).lookup m.id⟩
      match result.2 with
      | .error status => (result.1, .error status)
      | .ok response =>
        if !response.success then (result.1, .refused)
        else (result.1, .answered response.applied response.folderId
          (if response.applied then [] else [m.id]) [])

end Request

/-- `settleDone`.
SOURCE: ui/src/lib/intent-drainer.ts:434-447 -/
def settleDone (i : MailIntent) (now : Time) (applied : Bool) (landedFolderId : Option Uuid)
    (skippedIds : List Uuid) (sources : List (Uuid × Uuid)) : MailIntent :=
  { i with
    state := .done, doneAt := some now, notApplied := !applied, skippedIds := skippedIds,
    messages := i.messages.filter fun m => decide (m.id ∉ skippedIds),
    landedFolderId := landedFolderId, sources := sources, updatedAt := now }

/-! ## Undo -/

/-- The action that puts a flag back, and the messages that had it otherwise.
SOURCE: ui/src/lib/mail-intents.ts:773-778 -/
def inverse : Action → Option (Action × (IntentMessage → Bool))
  | .markRead => some (.markUnread, fun m => !m.isSeen)
  | .markUnread => some (.markRead, fun m => m.isSeen)
  | .flag => some (.unflag, fun m => !m.isFlagged)
  | .unflag => some (.flag, fun m => m.isFlagged)
  | _ => none

/-- The snapshot of a message; of two with one id the map keeps the last. -/
def snapshotOf (i : MailIntent) (id : Uuid) : Option IntentMessage :=
  i.messages.reverse.find? fun m => decide (m.id = id)

/-- Where an applied intent left its messages. -/
def landedOf (i : MailIntent) : Option Uuid :=
  if i.action = .move then i.targetFolderId else i.landedFolderId

/-- The messages a leaving intent took, each with the folder it was in: the ones the
server listed, or else the named ones whose folder is known.
SOURCE: ui/src/lib/mail-intents.ts:741-745 -/
def sourcesOf (i : MailIntent) (landed : Uuid) : List (Uuid × Uuid) :=
  (if i.sources = [] then i.messages.filterMap fun m => m.folderId.map fun f => (m.id, f)
    else i.sources).filter fun s => decide (s.1 ∉ i.skippedIds) && decide (s.2 ≠ landed)

/-- A message to move back, as the intent's snapshot has it. -/
def returning (i : MailIntent) (landed : Uuid) (id : Uuid) : IntentMessage where
  id := id
  folderId := some landed
  isSeen := ((snapshotOf i id).map IntentMessage.isSeen).getD true
  isFlagged := ((snapshotOf i id).map IntentMessage.isFlagged).getD false
  threadId := (snapshotOf i id).bind IntentMessage.threadId
  listedAt := none

/-- The messages to mark unread again: those whose snapshot was. -/
def unreadAgain (i : MailIntent) (landed : Uuid) : List IntentMessage :=
  ((sourcesOf i landed).filter fun s =>
    ((snapshotOf i s.1).map IntentMessage.isSeen) = some false).map fun s =>
      { returning i landed s.1 with folderId := some s.2 }

def reversalBase (original : MailIntent) (now : Time) (id : IntentId) (action : Action)
    (messages : List IntentMessage) : MailIntent where
  id := id
  accountId := original.accountId
  action := action
  messages := messages
  bulk := true
  createdAt := now
  state := .pending
  attempts := 0
  notBefore := now
  reverses := some original.id
  generation := 0
  updatedAt := now

/-- The move of some messages back to a folder; `x` is the folder and the number of
its move. -/
def moveBack (original : MailIntent) (now : Time) (newId : ℕ → IntentId) (landed : Uuid)
    (sources : List (Uuid × Uuid)) (x : Uuid × ℕ) : MailIntent :=
  { reversalBase original now (newId x.2) .move
      ((sources.filter fun s => decide (s.2 = x.1)).map fun s => returning original landed s.1) with
    targetFolderId := some x.1 }

/-- `reversalsOf`: one move back for each folder the messages came from and one mark
as unread after them, or the opposite flag for the messages that had it. `newId n` is
the `n`-th new key.
SOURCE: ui/src/lib/mail-intents.ts:716-786 -/
def reversalsOf (original : MailIntent) (now : Time) (newId : ℕ → IntentId) : List MailIntent :=
  if original.notApplied || decide (original.state ≠ .done) || original.staysInPlace then []
  else if leavesFolder original.action then
    match landedOf original with
    | none => []
    | some landed =>
      let sources := sourcesOf original landed
      let folders := (sources.map Prod.snd).eraseDups
      let moves := folders.zipIdx.map (moveBack original now newId landed sources)
      let unread := unreadAgain original landed
      if unread = [] then moves
      else moves ++ [{ reversalBase original now (newId folders.length) .markUnread unread with
        createdAt := now + 1 }]
  else
    match inverse original.action with
    | none => []
    | some (action, had) =>
      let messages := original.messages.filter fun m =>
        decide (m.id ∉ original.skippedIds) && had m
      if messages = [] then [] else [reversalBase original now (newId 0) action messages]

/-- The intent `processUndoRequests` reverses: the undo step's copy under the live
one, with the messages of the copy.
SOURCE: ui/src/lib/intent-drainer.ts:277-280 -/
def mergedForUndo (copy live : MailIntent) : MailIntent := { live with messages := copy.messages }

/-- The messages after intents are carried out in order. -/
def requestAll (accounts : Uuid → Account) (S : Messages) (is : List MailIntent) : Messages :=
  is.foldl (fun S i => (request accounts S i).1) S

end MailVerdict.Model.MailIntents
