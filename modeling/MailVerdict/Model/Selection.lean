import Mathlib.Data.Int.Notation
import MailVerdict.Computation.TransitionSystem
import MailVerdict.Model.MailActions

/-!
# What is ticked in a mail list, and what a bulk action takes

A selection is a set of ticked ids, or everything in a folder before a moment with
exceptions and additions (`ui/src/lib/selection.ts`). The server resolves the requests
built from it against its tables, the live messages and the glacier
(`api/mails.py`). The mailbox here is the one at that time; a message that was
mirrored later than a moment was not there at the moment.
-/

namespace MailVerdict.Model.Selection

open MailVerdict.Computation Model.MailActions

/-! ## The selection -/

inductive ListPlace
  | folder (accountId folderId : Uuid)
  | unified (name : String)
deriving DecidableEq

/-- SOURCE: ui/src/lib/selection.ts:25-34 -/
structure SelectionScope where
  place : ListPlace
  threaded : Bool
deriving DecidableEq

inductive Filter
  | all
  | unread
deriving DecidableEq

/-- SOURCE: ui/src/lib/selection.ts:36-45 -/
structure SelectionPredicate where
  accountId : Uuid
  folderId : Uuid
  filter : Filter
  snapshotAt : Time
  count : ℕ

/-- SOURCE: ui/src/lib/selection.ts:47-55 -/
structure SelectableRow where
  id : Uuid
  accountId : Uuid
  folderId : Uuid
  isSeen : Bool
  mirroredAt : Option Time
deriving DecidableEq

/-- Ids, each with the account it was ticked under. -/
abbrev Ticks := KeyedTable (Prod.fst : Uuid × Uuid → Uuid)

def Ticks.has (m : Ticks) (id : Uuid) : Bool := decide (id ∈ m.rows.map Prod.fst)

/-- SOURCE: ui/src/lib/selection.ts:57-75 -/
structure SelectionState where
  predicate : Option SelectionPredicate
  included : Ticks
  excluded : Ticks
  anchorId : Option Uuid
  anchorBase : Option (Ticks × Ticks)
  scope : Option SelectionScope

def emptySelection : SelectionState :=
  ⟨none, KeyedTable.empty, KeyedTable.empty, none, none, none⟩

/-- SOURCE: ui/src/lib/selection.ts:97-100 -/
def selectionForScope (s : SelectionState) (scope : SelectionScope) : SelectionState :=
  match s.scope with
  | none => s
  | some made => if made = scope then s else emptySelection

/-- SOURCE: ui/src/lib/selection.ts:103-108 -/
def matchesPredicate (p : SelectionPredicate) (row : SelectableRow) : Bool :=
  decide (row.folderId = p.folderId) && !(decide (p.filter = .unread) && row.isSeen) &&
    row.mirroredAt.any fun t => decide (t ≤ p.snapshotAt)

/-- A row falls inside the predicate of a selection, if it has one. -/
def covers (predicate : Option SelectionPredicate) (row : SelectableRow) : Bool :=
  predicate.any fun p => matchesPredicate p row

/-- SOURCE: ui/src/lib/selection.ts:111-115 -/
def isRowSelected (s : SelectionState) (row : SelectableRow) : Bool :=
  if covers s.predicate row then !s.excluded.has row.id else s.included.has row.id

/-- SOURCE: ui/src/lib/selection.ts:118-121 -/
def selectionSize (s : SelectionState) : ℤ :=
  match s.predicate with
  | none => s.included.rows.length
  | some p => p.count - s.excluded.rows.length + s.included.rows.length

/-- SOURCE: ui/src/lib/selection.ts:124-135 -/
def setRowChecked (s : SelectionState) (row : SelectableRow) (checked : Bool) : SelectionState :=
  if covers s.predicate row then
    { s with
      excluded :=
        if checked then s.excluded.erase row.id else s.excluded.put (row.id, row.accountId) }
  else
    { s with
      included :=
        if checked then s.included.put (row.id, row.accountId) else s.included.erase row.id }

def checkRows (s : SelectionState) (rows : List SelectableRow) : SelectionState :=
  rows.foldl (fun s row => setRowChecked s row true) s

/-- SOURCE: ui/src/lib/selection.ts:139-147 -/
def selectRows (s : SelectionState) (rows : List SelectableRow) (scope : SelectionScope) :
    SelectionState :=
  { checkRows (selectionForScope s scope) rows with
    scope := some scope, anchorId := none, anchorBase := none }

/-- A row is ticked or unticked and becomes the anchor of the ranges that follow. -/
def anchored (next : SelectionState) (row : SelectableRow) (scope : SelectionScope) :
    SelectionState :=
  { next with
    scope := some scope, anchorId := some row.id,
    anchorBase := some (next.included, next.excluded) }

/-- SOURCE: ui/src/lib/selection.ts:157-166 -/
def toggleRow (s : SelectionState) (row : SelectableRow) (scope : SelectionScope) :
    SelectionState :=
  let current := selectionForScope s scope
  anchored (setRowChecked current row (!isRowSelected current row)) row scope

/-- The ids between two of a list, both included. -/
def rangeOf (visibleIds : List Uuid) (i j : ℕ) : List Uuid :=
  (visibleIds.take (max i j + 1)).drop (min i j)

/-- SOURCE: ui/src/lib/selection.ts:185-219 -/
def extendRange (s : SelectionState) (visibleIds : List Uuid)
    (rowsById : Uuid → Option SelectableRow) (targetId : Uuid) (scope : SelectionScope) :
    SelectionState :=
  let current := selectionForScope s scope
  match rowsById targetId with
  | none => current
  | some targetRow =>
    match current.anchorId, current.anchorBase with
    | some anchorId, some base =>
      match visibleIds.idxOf? anchorId, visibleIds.idxOf? targetId with
      | some i, some j =>
        { checkRows { current with included := base.1, excluded := base.2 }
            ((rangeOf visibleIds i j).filterMap rowsById) with
          scope := some scope, anchorId := current.anchorId, anchorBase := current.anchorBase }
      | _, _ => current
    | _, _ => anchored (setRowChecked current targetRow true) targetRow scope

/-! ## The requests -/

/-- SOURCE: api/schemas.py:278-294 -/
structure BulkActionScope where
  folderId : Uuid
  filter : Filter
  snapshotAt : Time
  excludeIds : List Uuid

structure BulkActionTarget where
  ids : Option (List Uuid)
  scope : Option BulkActionScope
  expandThreads : Bool

/-- SOURCE: ui/src/hooks/use-selection.ts:178-204 -/
def buildBulkRequests (s : SelectionState) : List (Uuid × BulkActionTarget) :=
  match s.predicate with
  | some p =>
    [(p.accountId,
      { ids :=
          if s.included.rows.length = 0 then none else some (s.included.rows.map Prod.fst)
        scope := some
          { folderId := p.folderId, filter := p.filter, snapshotAt := p.snapshotAt,
            excludeIds := s.excluded.rows.map Prod.fst }
        expandThreads := false })]
  | none =>
    (s.included.rows.map Prod.snd).eraseDups.map fun accountId =>
      (accountId,
        { ids := some ((s.included.rows.filter fun e => decide (e.2 = accountId)).map Prod.fst)
          scope := none
          expandThreads := s.scope.any SelectionScope.threaded })

/-! ## The mailbox -/

/-- A message that left the mail server: the columns of a message and its own.
SOURCE: database/models.py:807-945 -/
structure GlacierRow extends MailRow where
  visibleAt : Option Time
  originMessageId : Option Uuid

/-- The tables a list and a bulk action read. `glacierFolder` is the folder id of an
account's enabled glacier, `glacierAccount` the account of one; `folders` are the folders of
the mail servers, `viewMembers` what a unified view names. -/
structure Mailbox where
  messages : Messages
  glacier : KeyedTable (fun g : GlacierRow => g.id)
  receivedAt : Uuid → Option Time
  glacierFolder : Uuid → Option Uuid
  glacierAccount : Uuid → Option Uuid
  folders : List Uuid
  viewMembers : String → List Uuid
  /-- Ids are not used twice. -/
  apart : ∀ g ∈ glacier.rows, ∀ m ∈ messages.rows, g.id ≠ m.id
  origins : ∀ g ∈ glacier.rows, ∀ g' ∈ glacier.rows, g.originMessageId ≠ some g'.id
  /-- A message is never in both lists at once. -/
  departed : ∀ g ∈ glacier.rows, g.visibleAt.isSome = true →
    ∀ m ∈ messages.rows, m.expunged = false → g.originMessageId ≠ some m.id
  /-- A glacier row keeps the creation time of its message. -/
  mirrored : ∀ g ∈ glacier.rows, ∀ v, g.visibleAt = some v → g.createdAt ≤ v
  /-- A glacier row is never expunged. -/
  kept : ∀ g ∈ glacier.rows, g.expunged = false
  /-- A glacier has a folder of its own, which no mail server has. -/
  coherent : ∀ f a, glacierAccount f = some a ↔ glacierFolder a = some f
  filed : ∀ g ∈ glacier.rows, ∀ f, glacierFolder g.accountId = some f → g.folderId = f
  owned : ∀ g ∈ glacier.rows, ∀ a, glacierAccount g.folderId = some a → a = g.accountId
  synthetic : ∀ g ∈ glacier.rows, g.folderId ∉ folders
  onServer : ∀ m ∈ messages.rows, glacierAccount m.folderId = none

namespace Mailbox

variable (M : Mailbox)

/-- The glacier rows a list shows.
SOURCE: glacier/rows.py:49-73 -/
def visible : List GlacierRow := M.glacier.rows.filter fun g => g.visibleAt.isSome

/-- SOURCE: api/unified.py:104-130 -/
def memberFolderIds (name : String) : List Uuid :=
  (M.viewMembers name).filter fun f => decide (f ∈ M.folders) || (M.glacierAccount f).isSome

/-- `_resolve_list_entity`.
SOURCE: api/mails.py:410-474 -/
def listEntity : ListPlace → List MailRow
  | .folder _ f =>
    if (M.glacierAccount f).isSome then M.visible.map GlacierRow.toMailRow else M.messages.rows
  | .unified _ => M.messages.rows ++ M.visible.map GlacierRow.toMailRow

/-- `_list_filters`.
SOURCE: api/mails.py:477-513 -/
def listFilters (place : ListPlace) (unreadOnly : Bool) (r : MailRow) : Bool :=
  !r.expunged &&
    (match place with
    | .folder a f => decide (r.accountId = a) && decide (r.folderId = f)
    | .unified name => decide (r.folderId ∈ M.memberFolderIds name)) &&
    !(unreadOnly && r.isSeen)

/-- The order of a conversation: by `received_at`, where NULL comes first, and by id. -/
def newer (r r' : MailRow) : Bool :=
  match M.receivedAt r.id, M.receivedAt r'.id with
  | none, none => decide (r'.id < r.id)
  | none, some _ => true
  | some _, none => false
  | some t, some t' => decide (t' < t) || (decide (t = t') && decide (r'.id < r.id))

/-- `_list_messages_flat_page` and `_list_messages_threaded`, all their pages: the messages
of the list, or of each conversation the latest.
SOURCE: api/mails.py:672-830 -/
def listMessages (scope : SelectionScope) (unreadOnly : Bool) : List MailRow :=
  let flat := (M.listEntity scope.place).filter (M.listFilters scope.place unreadOnly)
  if scope.threaded then
    flat.filter fun r => flat.all fun r' => decide (r'.threadId ≠ r.threadId) || !M.newer r' r
  else flat

/-- SOURCE: api/mails.py:147-213 -/
def summary (r : MailRow) : SelectableRow := ⟨r.id, r.accountId, r.folderId, r.isSeen, some r.createdAt⟩

def listRows (scope : SelectionScope) (unreadOnly : Bool) : List SelectableRow :=
  (M.listMessages scope unreadOnly).map summary

/-! ## The server's side -/

/-- The `unread` filter of a scope. -/
def filterHolds (filter : Filter) (r : MailRow) : Bool := !(decide (filter = .unread) && r.isSeen)

/-- `mint_selection`, asked at `now`; `now` goes to the client with the count.
SOURCE: api/mails.py:2103-2144 -/
def mintSelection (accountId folderId : Uuid) (filter : Filter) (now : Time) : ℕ :=
  if M.glacierAccount folderId = some accountId then
    M.glacier.rows.countP fun g => decide (g.accountId = accountId) &&
      (g.visibleAt.any fun v => decide (v ≤ now)) && filterHolds filter g.toMailRow
  else
    M.messages.rows.countP fun m => decide (m.accountId = accountId) &&
      decide (m.folderId = folderId) && !m.expunged && decide (m.createdAt ≤ now) &&
        filterHolds filter m

/-- SOURCE: api/mails.py:2515-2543 -/
def resolveScopeIds (accountId : Uuid) (scope : BulkActionScope) : List Uuid :=
  (M.messages.rows.filter fun m => decide (m.accountId = accountId) &&
    decide (m.folderId = scope.folderId) && !m.expunged &&
      decide (m.createdAt ≤ scope.snapshotAt) && filterHolds scope.filter m &&
        decide (m.id ∉ scope.excludeIds)).map MailRow.id

/-- SOURCE: api/mails.py:2596-2617 -/
def resolveGlacierScopeIds (accountId : Uuid) (scope : BulkActionScope) : List Uuid :=
  (M.glacier.rows.filter fun g => decide (g.accountId = accountId) &&
    decide (g.folderId = scope.folderId) &&
      (g.visibleAt.any fun v => decide (v ≤ scope.snapshotAt)) &&
        filterHolds scope.filter g.toMailRow && decide (g.id ∉ scope.excludeIds)).map
          fun g => g.id

/-- The named ids of glacier rows: their own, or that of the message they were.
SOURCE: api/mails.py:2562-2593 -/
def resolveGlacierExplicitIds (accountId : Uuid) (ids : List Uuid) : List Uuid :=
  M.visible.filterMap fun g =>
    if g.accountId ≠ accountId then none
    else if g.id ∈ ids then some g.id
    else g.originMessageId.filter fun o => decide (o ∈ ids)

/-- SOURCE: glacier/rows.py:124-148 -/
def resolveGlacierId (messageId : Uuid) : Option Uuid :=
  (M.visible.find? fun g =>
    decide (g.id = messageId) || decide (g.originMessageId = some messageId)).map fun g => g.id

/-- The glacier ids of a request.
SOURCE: api/mails.py:2184-2202 -/
def glacierIds (accountId : Uuid) (target : BulkActionTarget) : List Uuid :=
  match M.glacierFolder accountId with
  | none => []
  | some f =>
    ((target.scope.toList.flatMap fun scope =>
        if scope.folderId = f then M.resolveGlacierScopeIds accountId scope else []) ++
      M.resolveGlacierExplicitIds accountId (target.ids.getD [])).eraseDups

/-- The part of a request that names live messages; a client names no folders with it. -/
def explicitRequest (accountId : Uuid) (action : Action) (through : Option Time)
    (target : BulkActionTarget) : BulkActionRequest where
  action := action
  targetFolderId := none
  ids := (target.ids.getD []).filter fun id => decide (id ∉ M.glacierIds accountId target)
  expandThreads := target.expandThreads
  expandThreadsThrough := through
  expectedFolderIds := []

/-- The live messages of a request: of its scope, then those it names.
SOURCE: api/mails.py:2204-2250 -/
def messageIds (accountId : Uuid) (action : Action) (through : Option Time)
    (target : BulkActionTarget) : List Uuid :=
  let inScope := target.scope.toList.flatMap (M.resolveScopeIds accountId)
  inScope ++ ((writeGuards accountId M.messages
    (M.explicitRequest accountId action through target)).map Prod.fst).filter
      fun id => decide (id ∉ inScope)

/-- The validators of a request.
SOURCE: api/schemas.py:361-392 -/
def accepts (target : BulkActionTarget) : Bool :=
  (target.ids.isSome || target.scope.isSome) &&
    target.scope.all fun scope => (target.ids.getD []).all fun id => decide (id ∉ scope.excludeIds)

/-- The rows `_apply_bulk_action` acts on, or none of them where the request is refused. -/
def resolveBulk (action : Action) (through : Option Time) (request : Uuid × BulkActionTarget) :
    List Uuid :=
  if accepts request.2 then
    M.messageIds request.1 action through request.2 ++
      (M.glacierIds request.1 request.2).filterMap M.resolveGlacierId
  else []

end Mailbox

/-! ## A list and its gestures -/

structure Screen where
  scope : SelectionScope
  unreadOnly : Bool
  loaded : List SelectableRow
  selection : SelectionState

inductive Label
  | openList (scope : SelectionScope) (unreadOnly : Bool)
  | load (rows : List SelectableRow)
  | toggle (id : Uuid)
  | shift (id : Uuid)
  | selectLoaded
  | selectAll (filter : Filter) (now : Time)
  | clear

namespace Screen

/-- The selection as it applies to the list on screen.
SOURCE: ui/src/store/selection-atom.ts:50-53 -/
def effective (s : Screen) : SelectionState := selectionForScope s.selection s.scope

/-- SOURCE: ui/src/components/mail/mail-list.tsx:343-347 -/
def rowsById (s : Screen) (id : Uuid) : Option SelectableRow :=
  s.loaded.find? fun r => decide (r.id = id)

end Screen

/-- A list opens without a selection; what is loaded of it stays, in the order of the list.
Everything in a folder is selected with a moment and a count of the server's. -/
def step (M : Mailbox) (s : Screen) : Label → Option Screen
  | .openList scope unreadOnly => some ⟨scope, unreadOnly, [], emptySelection⟩
  | .load rows =>
    if (∀ r ∈ rows, r ∈ M.listRows s.scope s.unreadOnly) ∧ ∀ r ∈ s.loaded, r ∈ rows then
      some { s with loaded := rows }
    else none
  | .toggle id => (s.rowsById id).map fun row =>
    { s with selection := toggleRow s.selection row s.scope }
  | .shift id => (s.rowsById id).map fun _ =>
    { s with
      selection := extendRange s.selection (s.loaded.map SelectableRow.id) s.rowsById id s.scope }
  | .selectLoaded => some { s with selection := selectRows s.selection s.loaded s.scope }
  | .selectAll filter now =>
    match s.scope.place with
    | .unified _ => none
    | .folder accountId folderId => some
        { s with
          selection :=
            { emptySelection with
              predicate := some
                ⟨accountId, folderId, filter, now, M.mintSelection accountId folderId filter now⟩
              scope := some s.scope } }
  | .clear => some { s with selection := emptySelection }

/-- Nothing is ticked in the list a tab starts with. -/
def system (M : Mailbox) : TransitionSystem Screen Label where
  init s := s.loaded = [] ∧ s.selection = emptySelection
  step := step M

end MailVerdict.Model.Selection
