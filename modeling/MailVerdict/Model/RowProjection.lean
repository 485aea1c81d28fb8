import Mathlib.Algebra.Ring.Int.Defs
import MailVerdict.Model.IntentLedger

/-!
# The rows a list shows

A list shows the rows the server last sent with every intent on top that they may be
missing (`projectRows`): rows an intent takes away are hidden, flags are overlaid, and rows a
move brings back are put in from the snapshot the intent carries.

`rowOf` is the row snapshot of an intent's message, `m.row`, which `MailIntents` leaves out.
The texts of errors are left out, and so is whether the array returned is the one that was
passed. Glacier folders are lists of another table and not among the folders of a list here.
-/

namespace MailVerdict.Model.RowProjection

open Model.MailActions Model.MailIntents Model.IntentLedger

/-- SOURCE: ui/src/lib/mail-intents.ts:238-254 -/
structure Row where
  id : Uuid
  folderId : Uuid
  threadId : Option Uuid
  isSeen : Bool
  isFlagged : Bool
  receivedAt : Option Time
  unreadInThread : Option ℕ := none
  pendingSince : Option Time := none
  failedIntent : Option (IntentId × Action) := none
deriving DecidableEq

/-! ## Which intents project, and what they do to a row -/

/-- SOURCE: ui/src/lib/mail-intents.ts:206-209 -/
def intentLeaves (i : MailIntent) : Bool := leavesFolder i.action && !i.staysInPlace

/-- SOURCE: ui/src/lib/mail-intents.ts:216-220 -/
def isProjecting (i : MailIntent) : Bool :=
  decide (i.state = .pending) || decide (i.state = .inflight) || decide (i.state = .done)

/-- SOURCE: ui/src/lib/mail-intents.ts:222-226 -/
def appliesTo (i : MailIntent) (readAt : Time) : Bool :=
  isProjecting i && (decide (i.state ≠ .done) || decide (readAt < i.doneAt.getD 0))

/-- SOURCE: ui/src/lib/mail-intents.ts:228-232 -/
def countsApply (i : MailIntent) (readAt : Time) : Bool :=
  isProjecting i &&
    match i.firstSentAt with
    | none => true
    | some sent => decide (readAt < sent)

/-- SOURCE: ui/src/lib/mail-intents.ts:282-292 -/
def hidesRow (i : MailIntent) (row : Row) : Bool :=
  if intentLeaves i then
    match i.action, i.targetFolderId with
    | .move, some target => decide (row.folderId ≠ target)
    | _, _ => true
  else false

/-- SOURCE: ui/src/lib/mail-intents.ts:294-307 -/
def flagOverride (action : Action) (row : Row) : Row :=
  match action with
  | .markRead => { row with isSeen := true }
  | .markUnread => { row with isSeen := false }
  | .flag => { row with isFlagged := true }
  | .unflag => { row with isFlagged := false }
  | _ => row

/-- Newest first, the server's own order.
SOURCE: ui/src/lib/mail-intents.ts:309-319 -/
def sitsAbove (a b : Row) : Bool :=
  match a.receivedAt, b.receivedAt with
  | none, none => decide (b.id < a.id)
  | none, some _ => true
  | some _, none => false
  | some x, some y => if x ≠ y then decide (y < x) else decide (b.id < a.id)

/-- SOURCE: ui/src/lib/mail-intents.ts:426-429 -/
def markPending (i : MailIntent) (row : Row) : Row :=
  match row.pendingSince with
  | some since => if since ≤ i.createdAt then row else { row with pendingSince := some i.createdAt }
  | none => { row with pendingSince := some i.createdAt }

/-- SOURCE: ui/src/lib/mail-intents.ts:321-333 -/
structure ListProjection where
  readAt : Time
  scopeFolderIds : Option (Finset Uuid)
  threaded : Bool
  hasMore : Bool

/-! ## Unread counts of conversations -/

structure MessageTrack where
  folderId : Option Uuid
  isSeen : Bool

/-- A change of a folder's counts: the folder, the total, the unread. -/
abbrev CountChange := Uuid × ℤ × ℤ

/-- SOURCE: ui/src/lib/mail-intents.ts:473-499 -/
def stepMessage (i : MailIntent) (track : MessageTrack) : MessageTrack × List CountChange :=
  if intentLeaves i then
    let left : List CountChange :=
      track.folderId.toList.map fun f => (f, -1, if track.isSeen then 0 else -1)
    match if i.action = .move then i.targetFolderId else i.landedFolderId with
    | some landed =>
      if i.action = .expunge then ({ track with folderId := none }, left)
      else
        ({ track with folderId := some landed },
          left ++ [(landed, 1, if track.isSeen then 0 else 1)])
    | none => ({ track with folderId := none }, left)
  else if i.action = .markRead && !track.isSeen then
    ({ track with isSeen := true }, track.folderId.toList.map fun f => (f, 0, -1))
  else if i.action = .markUnread && track.isSeen then
    ({ track with isSeen := false }, track.folderId.toList.map fun f => (f, 0, 1))
  else (track, [])

/-- One message of an intent, walked: its track is started from what the first intent saw. -/
def visitMessage (state : (Uuid → Option MessageTrack) ×
      List (MailIntent × IntentMessage × List CountChange))
    (v : MailIntent × IntentMessage) :
    (Uuid → Option MessageTrack) × List (MailIntent × IntentMessage × List CountChange) :=
  let track := (state.1 v.2.id).getD ⟨v.2.folderId, v.2.isSeen⟩
  let result := stepMessage v.1 track
  (Function.update state.1 v.2.id (some result.1), state.2 ++ [(v.1, v.2, result.2)])

/-- SOURCE: ui/src/lib/mail-intents.ts:501-517 -/
def walkMessages (intents : List MailIntent) :
    List (MailIntent × IntentMessage × List CountChange) :=
  (((intents.filter isProjecting).insertionSort byCreation).flatMap fun i =>
    i.messages.map fun m => (i, m)).foldl visitMessage (fun _ => none, []) |>.2

/-- The changes of the unread counts, each with its conversation and folder; an entry of the
map is the sum of those of its keys.
SOURCE: ui/src/lib/mail-intents.ts:519-536 -/
def conversationUnreadDeltas (intents : List MailIntent) (readAt : Time) :
    List (Uuid × Uuid × ℤ) :=
  (walkMessages intents).flatMap fun v =>
    match v.2.1.threadId with
    | none => []
    | some thread =>
      if countsApply v.1 readAt then v.2.2.map fun c => (thread, c.1, c.2.2) else []

def addChange (deltas : Uuid → ℤ × ℤ) (c : CountChange) : Uuid → ℤ × ℤ :=
  Function.update deltas c.1 (deltas c.1 + c.2)

/-- The changes of each folder's counts, total and unread, not yet in counts read at `readAt`.
SOURCE: ui/src/lib/mail-intents.ts:538-555 -/
def folderCountDeltas (intents : List MailIntent) (readAt : Time) : Uuid → ℤ × ℤ :=
  (walkMessages intents).foldl (fun deltas v =>
    if countsApply v.1 readAt then v.2.2.foldl addChange deltas else deltas) fun _ => 0

/-! ## One row -/

section Row

variable (applying failed : List MailIntent) (list : ListProjection)

/-- The intents naming a message, once for each time they do. -/
def byMessage (id : Uuid) : List MailIntent :=
  applying.flatMap fun i => (i.messages.filter fun m => decide (m.id = id)).map fun _ => i

/-- Whether a conversation-expanded intent has an anchor in the row's conversation and folder. -/
def expandsTo (i : MailIntent) (row : Row) : Bool :=
  i.expandThreads && i.messages.any fun m =>
    m.threadId.isSome && decide (m.threadId = row.threadId) && decide (m.folderId = some row.folderId)

/-- SOURCE: ui/src/lib/mail-intents.ts:256-280 -/
def byConversation (row : Row) : List MailIntent := applying.filter fun i => expandsTo i row

/-- A row under the intents naming it; none where one of them hides it.
SOURCE: ui/src/lib/mail-intents.ts:363-372 -/
def overlay (row : Row) : List MailIntent → Option Row
  | [] => some row
  | i :: rest =>
    if hidesRow i row then none
    else
      let next := flagOverride i.action row
      overlay (if i.state ≠ .done then markPending i next else next) rest

/-- The newest failed intent naming the row.
SOURCE: ui/src/lib/mail-intents.ts:350-353, 384-390 -/
def withFailure (id : Uuid) (row : Row) : Row :=
  match (failed.filter fun i => decide (id ∈ i.messages.map IntentMessage.id)).getLast? with
  | some i => { row with failedIntent := some (i.id, i.action) }
  | none => row

/-- SOURCE: ui/src/lib/mail-intents.ts:391-406 -/
def withUnread (deltas : List (Uuid × Uuid × ℤ)) (row : Row) : Row :=
  match row.unreadInThread with
  | none => row
  | some unread =>
    let inScope (folder : Uuid) : Bool :=
      match list.scopeFolderIds with
      | some scope => decide (folder ∈ scope)
      | none => decide (folder = row.folderId)
    let delta : ℤ := ((deltas.filter fun d => decide (some d.1 = row.threadId) && inScope d.2.1).map
      fun d => d.2.2).sum
    if delta = 0 then row else { row with unreadInThread := some ((unread : ℤ) + delta).toNat }

/-- One round of the loop over the rows; none where the row is hidden.
SOURCE: ui/src/lib/mail-intents.ts:360-411 -/
def projectRow (deltas : List (Uuid × Uuid × ℤ)) (row : Row) : Option Row :=
  match overlay row (byMessage applying row.id) with
  | none => none
  | some next =>
    if (byConversation applying row).any fun i => hidesRow i next then none
    else some (withUnread list deltas (withFailure failed row.id next))

end Row

/-! ## Rows brought back -/

section Restored

variable (rowOf : IntentId → IntentMessage → Option Row)
variable (list : ListProjection) (present : List Uuid) (presentThreads : List (Option Uuid))

/-- `Map.set`: the entry of a key is replaced where it stands. -/
def setRow (restored : List (Uuid × Row)) (id : Uuid) (row : Row) : List (Uuid × Row) :=
  if restored.any fun e => decide (e.1 = id) then
    restored.map fun e => if e.1 = id then (id, row) else e
  else restored ++ [(id, row)]

/-- A message a move brings into the list.
SOURCE: ui/src/lib/mail-intents.ts:449-453 -/
def bringBack (i : MailIntent) (target : Uuid) (restored : List (Uuid × Row)) (m : IntentMessage) :
    List (Uuid × Row) :=
  match rowOf i.id m with
  | none => restored
  | some row =>
    if m.id ∈ present then restored
    else if list.threaded && m.threadId.isSome && decide (m.threadId ∈ presentThreads) then restored
    else setRow restored m.id { row with folderId := target }

/-- A message of any other intent.
SOURCE: ui/src/lib/mail-intents.ts:456-461 -/
def overlayRestored (i : MailIntent) (restored : List (Uuid × Row)) (m : IntentMessage) :
    List (Uuid × Row) :=
  match restored.lookup m.id with
  | none => restored
  | some row =>
    if hidesRow i row then restored.filter fun e => decide (e.1 ≠ m.id)
    else setRow restored m.id (flagOverride i.action row)

/-- The folder of the list an intent moves to. -/
def movesInto (scope : Finset Uuid) (i : MailIntent) : Option Uuid :=
  match i.action, i.targetFolderId with
  | .move, some target => if target ∈ scope then some target else none
  | _, _ => none

/-- One round of the loop over the intents.
SOURCE: ui/src/lib/mail-intents.ts:444-462 -/
def restoreStep (scope : Finset Uuid) (restored : List (Uuid × Row)) (i : MailIntent) :
    List (Uuid × Row) :=
  match movesInto scope i with
  | some target => i.messages.foldl (bringBack rowOf list present presentThreads i target) restored
  | none => i.messages.foldl (overlayRestored i) restored

/-- SOURCE: ui/src/lib/mail-intents.ts:431-464 -/
def restoredRows (ordered : List MailIntent) : List Row :=
  match list.scopeFolderIds with
  | none => []
  | some scope =>
    (ordered.foldl (restoreStep rowOf list present presentThreads scope) []).map Prod.snd

end Restored

/-- A row put above the first it sits above.
SOURCE: ui/src/lib/mail-intents.ts:416-420 -/
def insertRow (row : Row) : List Row → List Row
  | [] => [row]
  | existing :: rest =>
    if sitsAbove row existing then row :: existing :: rest else existing :: insertRow row rest

/-- SOURCE: ui/src/lib/mail-intents.ts:335-424 -/
def projectRows (rowOf : IntentId → IntentMessage → Option Row) (rows : List Row)
    (intents : List MailIntent) (list : ListProjection) : List Row :=
  let applying := (intents.filter fun i => appliesTo i list.readAt).insertionSort byCreation
  let failed := intents.filter fun i => decide (i.state = .failed)
  if applying = [] ∧ failed = [] then rows
  else
    let deltas := if list.threaded then conversationUnreadDeltas intents list.readAt else []
    let out := rows.filterMap
      (projectRow applying (failed.insertionSort byCreation) list deltas)
    let restored := restoredRows rowOf list (out.map Row.id) (out.map Row.threadId) applying
    let last := out.getLast?
    restored.foldl (fun shown row =>
      if list.hasMore && last.any (fun l => !sitsAbove row l) then shown
      else insertRow row shown) out

end MailVerdict.Model.RowProjection
