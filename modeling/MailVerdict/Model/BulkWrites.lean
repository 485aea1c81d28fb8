import MailVerdict.Model.Selection

/-!
# A bulk action, statement by statement

`_apply_bulk_action` (`api/mails.py`) resolves a request by several queries and then writes by
several statements, each of them over the tables as they are when it runs. A step here is one of
these statements, or a change of the tables from outside; rows written in the transaction that is
open stay as they were written until it ends.

The writes are recorded, each with the folder the message was in: for a message that the open
transaction moved, the folder it moved it from. A ruling's verdict is a row of its own and no
write of the message. What `glacier_message_now` and a restore come to is given with the step.
-/

namespace MailVerdict.Model.BulkWrites

open MailVerdict.Computation Model.MailActions Model.Selection

/-- SOURCE: api/schemas.py:297-360 -/
structure BulkRequest extends BulkActionRequest where
  scope : Option BulkActionScope
  confirmMessageCount : Option ℕ
  confirm : Bool

/-- Whether the conversations of the named ids are read. -/
def BulkRequest.expands (q : BulkRequest) : Bool :=
  q.expandThreads && decide (q.action ≠ .expunge)

abbrev GlacierRows := KeyedTable (fun g : GlacierRow => g.id)

/-! ## The queries -/

section Queries

variable (S : Messages) (G : GlacierRows) (accountId : Uuid)

/-- `_resolve_scope_ids`.
SOURCE: api/mails.py:2515-2540 -/
def resolveScopeIds (scope : BulkActionScope) : List Uuid :=
  (S.rows.filter fun m => decide (m.accountId = accountId) &&
    decide (m.folderId = scope.folderId) && !m.expunged &&
      decide (m.createdAt ≤ scope.snapshotAt) && Mailbox.filterHolds scope.filter m &&
        decide (m.id ∉ scope.excludeIds)).map MailRow.id

/-- SOURCE: api/mails.py:2596-2617 -/
def resolveGlacierScopeIds (scope : BulkActionScope) : List Uuid :=
  (G.rows.filter fun g => decide (g.accountId = accountId) &&
    decide (g.folderId = scope.folderId) &&
      (g.visibleAt.any fun v => decide (v ≤ scope.snapshotAt)) &&
        Mailbox.filterHolds scope.filter g.toMailRow && decide (g.id ∉ scope.excludeIds)).map
          fun g => g.id

/-- SOURCE: api/mails.py:2562-2593 -/
def resolveGlacierExplicitIds (ids : List Uuid) : List Uuid :=
  (G.rows.filter fun g => g.visibleAt.isSome).filterMap fun g =>
    if g.accountId ≠ accountId then none
    else if g.id ∈ ids then some g.id
    else g.originMessageId.filter fun o => decide (o ∈ ids)

/-- The row `resolve_glacier_id` finds.
SOURCE: glacier/rows.py:124-148 -/
def glacierRowOf (id : Uuid) : Option GlacierRow :=
  (G.rows.filter fun g => g.visibleAt.isSome).find? fun g =>
    decide (g.id = id) || decide (g.originMessageId = some id)

/-- The conversations and folders of the anchors. -/
def anchorPairs (ids : List Uuid) : List (Uuid × Uuid) :=
  (S.rows.filter fun r => decide (r.id ∈ ids) && decide (r.accountId = accountId)).filterMap fun r =>
    r.threadId.map fun thread => (thread, r.folderId)

/-- The live messages of these conversations in these folders. -/
def conversationMembers (pairs : List (Uuid × Uuid)) (through : Option Time) :
    List (Uuid × Uuid) :=
  (S.rows.filter fun r => decide (r.accountId = accountId) && !r.expunged &&
    (r.threadId.any fun thread => decide ((thread, r.folderId) ∈ pairs)) &&
      through.all fun t => decide (r.createdAt ≤ t)).map fun r => (r.id, r.folderId)

def selfMembers (ids : List Uuid) : List (Uuid × Uuid) :=
  (S.rows.filter fun r => decide (r.id ∈ ids) && decide (r.accountId = accountId) &&
    !r.expunged).map fun r => (r.id, r.folderId)

end Queries

/-- `_write_guards`, from what the queries before it read.
SOURCE: api/mails.py:2413-2434 -/
def writeGuards (explicit : List Uuid) (live guards : List (Uuid × Uuid))
    (members : Option (List (Uuid × Uuid))) : List (Uuid × Option Uuid) :=
  match members with
  | none => explicit.map fun id =>
    (id, if (guards.lookup id).isSome then live.lookup id else none)
  | some members =>
    let guarded := (explicit.filter fun id => (guards.lookup id).isSome).filterMap fun id => live.lookup id
    members.map fun m => (m.1, if m.2 ∈ guarded then some m.2 else none)

/-! ## The statements that write -/

/-- An `UPDATE` of messages: its condition and what it sets. -/
structure Update where
  hits : MailRow → Bool
  set : MailRow → MailRow
  keeps : ∀ r, (set r).id = r.id

/-- SOURCE: postimap/actions.py:341-387 -/
def setFlagsBulk (ids : List Uuid) (action : Action) (expected : Option Uuid) : Update where
  hits r := decide (r.id ∈ ids) && decide (setFlag action r ≠ r) && guardHolds expected r
  set := setFlag action
  keeps := setFlag_id action

/-- `set_flags` with `is_seen`.
SOURCE: postimap/actions.py:208-230 -/
def setSeen (id : Uuid) : Update where
  hits r := decide (r.id = id)
  set := setFlag .markRead
  keeps := setFlag_id .markRead

/-- `move_message_bulk`, and `move_message` on one message.
SOURCE: postimap/actions.py:256-294, 429-462 -/
def moveMessageBulk (ids : List Uuid) (target : Uuid) : Update where
  hits r := decide (r.id ∈ ids) && decide (r.folderId ≠ target)
  set r := { r with folderId := target }
  keeps _ := rfl

/-- SOURCE: postimap/actions.py:465-501 -/
def moveMessagesFrom (ids : List Uuid) (source target : Uuid) : Update where
  hits r := decide (source ≠ target) && decide (r.id ∈ ids) && guardHolds (some source) r
  set r := { r with folderId := target }
  keeps _ := rfl

/-- SOURCE: postimap/actions.py:504-540 -/
def expungeBulk (ids : List Uuid) (expected : Option Uuid) : Update where
  hits r := decide (r.id ∈ ids) && guardHolds expected r
  set r := { r with expunged := true }
  keeps _ := rfl

/-- What `glacier_message_now` writes of a message: gone from the server, or copied and still to
go. -/
def glacierWrite (id : Uuid) (outcome : GlacierOutcome) : Update where
  hits r := decide (r.id = id) && !r.expunged && decide (outcome ≠ .refused)
  set r := { r with expunged := r.expunged || decide (outcome = .landed) }
  keeps _ := rfl

def moveInto (target : Uuid) (expected : Option Uuid) (ids : List Uuid) : Update :=
  match expected with
  | none => moveMessageBulk ids target
  | some source => moveMessagesFrom ids source target

/-! ## The run of a request -/

inductive Read
  | glacierFolder
  | glacierScope
  | glacierExplicit
  | scope
  | explicit
  | anchors
  | members
  | selves

/-- Ids and the folder their write is guarded to. -/
abbrev Group := Option Uuid × List Uuid

/-- Where the run is: the queries, ids or groups its loop has left. -/
inductive Phase
  | reading (rest : List Read)
  | acting (rest : List Uuid)
  | flagging (rest : List Group)
  | expunging (rest : List Group)
  | filing (target : Uuid) (role : Option Role) (rest : List Group)
  | glaciering (eligible : List Uuid) (rest : List Group)
  | ruling (rest : List Uuid)
  | rulingMove (target : Uuid) (role : Role) (id : Uuid) (rest : List Uuid)
  | rulingSeen (role : Role) (id : Uuid) (rest : List Uuid)
  | done (error : Option HttpError)

/-- A message that was written, under the name the write had for it, and its folder then. -/
structure Write where
  id : Uuid
  folderId : Uuid

/-- The tables and settings, and the run's own variables. `glacierFolders` are those of all
accounts; `held` are the messages the open transaction has written, each with the folder it was in;
`log` and `acted` are those written and those acted on in the glacier. -/
structure State where
  account : Account
  glacierFolders : Uuid → Bool
  messages : Messages
  glacier : GlacierRows
  held : List (Uuid × Uuid)
  glacierFolder : Option Uuid
  glacierIds : List Uuid
  inScope : List Uuid
  live : List (Uuid × Uuid)
  explicit : List Uuid
  pairs : List (Uuid × Uuid)
  members : List (Uuid × Uuid)
  expectedOf : List (Uuid × Option Uuid)
  skipped : List Uuid
  landed : List Uuid
  log : List Write
  acted : List Write
  phase : Phase

inductive Label
  | run (outcome : GlacierOutcome)
  | outside (account : Account) (glacierFolders : Uuid → Bool) (messages : Messages)
      (glacier : GlacierRows)

namespace State

variable (accountId : Uuid) (q : BulkRequest) (s : State)

def committedFolder (r : MailRow) : Uuid := (s.held.lookup r.id).getD r.folderId

def matched (u : Update) : List Uuid := (s.messages.rows.filter u.hits).map MailRow.id

def write (u : Update) : State :=
  let hit := s.messages.rows.filter u.hits
  { s with
    messages := s.messages.update u.hits u.set u.keeps
    log := s.log ++ hit.map fun r => ⟨r.id, s.committedFolder r⟩
    held := s.held ++ hit.map fun r => (r.id, s.committedFolder r) }

def finish (error : Option HttpError) : State := { s with held := [], phase := .done error }

/-! ### Resolving -/

/-- The request for the named ids that are not the glacier's. -/
def named : BulkActionRequest :=
  { q.toBulkActionRequest with ids := q.ids.filter fun id => decide (id ∉ s.glacierIds) }

/-- SOURCE: api/mails.py:2191-2243, 2437-2481 -/
def read (r : Read) : State :=
  match r with
  | .glacierFolder => { s with glacierFolder := s.account.glacierFolder }
  | .glacierScope =>
    { s with
      glacierIds := (q.scope.toList.filter fun scope =>
        decide (s.glacierFolder = some scope.folderId)).flatMap
          (resolveGlacierScopeIds s.glacier accountId) }
  | .glacierExplicit =>
    { s with
      glacierIds := (s.glacierIds ++ if s.glacierFolder.isSome then
        resolveGlacierExplicitIds s.glacier accountId q.ids else []).eraseDups }
  | .scope => { s with inScope := q.scope.toList.flatMap (resolveScopeIds s.messages accountId) }
  | .explicit =>
    { s with
      explicit := explicitIds accountId s.messages (s.named q)
      live := (s.named q).ids.filterMap fun id =>
        (liveFolder accountId s.messages id).map fun f => (id, f)
      skipped := readSkipped accountId s.messages (s.named q) s.account }
  | .anchors => { s with pairs := anchorPairs s.messages accountId s.explicit }
  | .members =>
    { s with
      members := conversationMembers s.messages accountId s.pairs q.expandThreadsThrough }
  | .selves =>
    { s with
      members := s.members ++ (selfMembers s.messages accountId s.explicit).filter fun m =>
        decide (m.1 ∉ s.members.map Prod.fst) }

/-- The guards of the named ids, or of the members of their conversations. -/
def namedGuards : List (Uuid × Option Uuid) :=
  writeGuards s.explicit s.live q.expectedFolderIds
    (if q.expands then some s.members else none)

/-- What is resolved, and the refusals that come before anything is written.
SOURCE: api/mails.py:2241-2284 -/
def resolve : State :=
  let expectedOf := s.inScope.map (fun id => (id, none)) ++
    (s.namedGuards q).filter fun x => decide (x.1 ∉ s.inScope)
  let t := { s with expectedOf := expectedOf }
  let total := expectedOf.length + s.glacierIds.length
  if q.confirmMessageCount.any fun confirmed => decide (confirmed ≠ total) then
    t.finish (some 409)
  else if total = 0 then t.finish none
  else if decide (s.account.maxManualBatch < s.glacierIds.length) &&
      decide (q.action = .move ∨ q.action = .archive ∨ q.action = .trash) then
    t.finish (some 409)
  else { t with phase := .acting s.glacierIds }

/-! ### Acting in the glacier -/

/-- Whether an action on a message in the glacier is applied; a restore is up to `outcome`.
SOURCE: api/mails.py:1729-1837 -/
def glacierActs (outcome : GlacierOutcome) : Except HttpError Bool :=
  match q.action with
  | .markRead | .markUnread | .flag | .unflag => .ok true
  | .expunge => .ok q.confirm
  | .move =>
    match q.targetFolderId with
    | none => .error 400
    | some target =>
      if s.glacierFolders target then .ok false
      else if s.account.ownsFolder target then .ok (decide (outcome ≠ .refused))
      else .error 400
  | .archive =>
    if (s.account.specialFolder .archive).isSome then .ok (decide (outcome ≠ .refused))
    else .error 400
  | .trash =>
    if (s.account.specialFolder .trash).isSome then .ok (decide (outcome ≠ .refused))
    else .error 400
  | .spam | .notSpam => .ok false

def actedRow (g : GlacierRow) : GlacierRow :=
  match q.action with
  | .markRead | .markUnread | .flag | .unflag => { g with toMailRow := setFlag q.action g.toMailRow }
  | .expunge => { g with visibleAt := none }
  | .move | .archive | .trash | .spam | .notSpam => g

theorem actedRow_id (g : GlacierRow) : (actedRow q g).id = g.id := by
  unfold actedRow
  split
  all_goals first | exact setFlag_id q.action g.toMailRow | rfl

/-- The names of a message in the glacier: its own id and that of the message it was. -/
def glacierWrites (g : GlacierRow) : List Write :=
  (g.id :: g.originMessageId.toList).map fun id => ⟨id, g.folderId⟩

/-- One round of `_bulk_glacier_action`.
SOURCE: api/mails.py:2635-2651 -/
def act (id : Uuid) (outcome : GlacierOutcome) (rest : List Uuid) : State :=
  match glacierRowOf s.glacier id, s.glacierActs q outcome with
  | some _, .error e => s.finish (some e)
  | some g, .ok true =>
    { s with
      glacier := s.glacier.update (fun r => decide (r.id = g.id)) (actedRow q) (actedRow_id q)
      acted := s.acted ++ glacierWrites g
      phase := .acting rest }
  | some _, .ok false => { s with skipped := s.skipped ++ [id], phase := .acting rest }
  | none, _ => { s with skipped := s.skipped ++ [id], phase := .acting rest }

/-! ### Writing -/

/-- The ids of each guard, in the order the guards come.
SOURCE: api/mails.py:2288-2290 -/
def groups : List Group :=
  (s.expectedOf.map Prod.snd).eraseDups.map fun expected =>
    (expected, (s.expectedOf.filter fun x => decide (x.2 = expected)).map Prod.fst)

/-- Which statements write.
SOURCE: api/mails.py:2322-2401 -/
def dispatch : State :=
  match q.action with
  | .markRead | .markUnread | .flag | .unflag => { s with phase := .flagging s.groups }
  | .expunge => { s with phase := .expunging s.groups }
  | .move =>
    match q.targetFolderId with
    | none => s.finish (some 400)
    | some target =>
      if s.account.glacierFolder = some target then
        if s.account.maxManualBatch < s.expectedOf.length then s.finish (some 409)
        else { s with phase := .glaciering [] s.groups }
      else if s.account.ownsFolder target then
        { s with phase := .filing target (s.account.folderRole target) s.groups }
      else s.finish (some 400)
  | .archive =>
    match s.account.specialFolder .archive with
    | none => s.finish none
    | some target => { s with phase := .filing target (some .archive) s.groups }
  | .trash =>
    match s.account.specialFolder .trash with
    | none => s.finish none
    | some target => { s with phase := .filing target (some .trash) s.groups }
  | .spam | .notSpam =>
    if s.account.spamProcessor then { s with phase := .ruling (s.expectedOf.map Prod.fst) }
    else s.finish none

/-- The ids of a group that are in the folder after its move.
SOURCE: api/mails.py:2302-2320 -/
def landing (target : Uuid) (g : Group) : List Uuid :=
  match g.1 with
  | none => g.2
  | some source => if source = target then g.2 else s.matched (moveMessagesFrom g.2 source target)

/-- The ids of a group that did not get there. -/
def missed (target : Uuid) (g : Group) : List Uuid :=
  g.2.filter fun id => decide (id ∉ s.landing target g)

/-- The ids of a group that are still where its write is guarded to.
SOURCE: api/mails.py:2073-2084 -/
def eligible (g : Group) : List Uuid :=
  match g.1 with
  | none => g.2
  | some _ => g.2.filter fun id => s.messages.rows.any fun r =>
    decide (r.id = id) && guardHolds g.1 r

/-- `landed` are marked read where filing in the role does that. -/
def markFiled (role : Option Role) : Update :=
  setFlagsBulk (if shouldMarkReadOnFile s.account role then s.landed else []) .markRead none

/-- The ruling on a message is recorded, and the message is filed if that asks for it.
SOURCE: spam/feedback.py:162-190 -/
def rule (id : Uuid) (rest : List Uuid) : State :=
  let isSpam := decide (q.action = .spam)
  let prior := (s.messages.find? id).bind MailRow.verdictIsSpam
  let home := (rulingRole isSpam prior).bind fun role =>
    (s.account.specialFolder role).map fun target => (target, role)
  { s with
    messages := s.messages.update (fun r => decide (r.id = id))
      (fun r => { r with verdictIsSpam := some isSpam }) fun _ => rfl
    phase := match home with
      | some x => .rulingMove x.1 x.2 id rest
      | none => .ruling rest }

/-- The folder the write of a message is guarded to. -/
def expected (id : Uuid) : Option Uuid := (s.expectedOf.lookup id).getD none

def single (id : Uuid) : Group := (s.expected id, [id])

/-- Whether a ruling marks its message read. -/
def markRuled (role : Role) (id : Uuid) : Update :=
  if shouldMarkReadOnFile s.account (some role) then setSeen id
  else setFlagsBulk [] .markRead none

/-- The next statement.
SOURCE: api/mails.py:2170-2410, spam/feedback.py:118-202 -/
def run (outcome : GlacierOutcome) : Option State :=
  match s.phase with
  | .reading [] => some (s.resolve q)
  | .reading (r :: rest) => some { s.read accountId q r with phase := .reading rest }
  | .acting [] => some (s.dispatch q)
  | .acting (id :: rest) => some (s.act q id outcome rest)
  | .flagging [] | .expunging [] | .glaciering [] [] | .ruling [] => some (s.finish none)
  | .flagging (g :: rest) =>
    some { s.write (setFlagsBulk g.2 q.action g.1) with phase := .flagging rest }
  | .expunging (g :: rest) =>
    some { s.write (expungeBulk g.2 g.1) with phase := .expunging rest }
  | .filing _ role [] => some ((s.write (s.markFiled role)).finish none)
  | .filing target role (g :: rest) =>
    some { s.write (moveInto target g.1 g.2) with
      landed := s.landed ++ s.landing target g
      skipped := s.skipped ++ s.missed target g
      phase := .filing target role rest }
  | .glaciering [] (g :: rest) =>
    some { s with
      skipped := s.skipped ++ g.2.filter fun id => decide (id ∉ s.eligible g)
      phase := .glaciering (s.eligible g) rest }
  | .glaciering (id :: ids) rest =>
    let u := glacierWrite id outcome
    some { s.write u with
      held := []
      skipped := s.skipped ++ if outcome = .refused ∨ s.matched u = [] then [id] else []
      phase := .glaciering ids rest }
  | .ruling (id :: rest) => some (s.rule q id rest)
  | .rulingMove target role id rest =>
    some { s.write (moveInto target (s.expected id) [id]) with
      phase :=
        if id ∈ s.landing target (s.single id) then .rulingSeen role id rest else .ruling rest }
  | .rulingSeen role id rest =>
    some { s.write (s.markRuled role id) with held := [], phase := .ruling rest }
  | .done _ => none

/-- Whether the rows of the open transaction are as it wrote them. -/
def heldIn (messages : Messages) : Bool :=
  s.messages.rows.all fun r => decide ((s.held.lookup r.id).isSome → r ∈ messages.rows)

end State

def step (accountId : Uuid) (q : BulkRequest) (s : State) : Label → Option State
  | .run outcome => s.run accountId q outcome
  | .outside account glacierFolders messages glacier =>
    if s.heldIn messages then
      some { s with
        account := account
        glacierFolders := glacierFolders
        messages := messages
        glacier := glacier }
    else none

def reads (q : BulkRequest) : List Read :=
  [.glacierFolder, .glacierScope, .glacierExplicit, .scope, .explicit] ++
    if q.expands then [.anchors, .members, .selves] else []

def start (q : BulkRequest) (account : Account) (glacierFolders : Uuid → Bool)
    (messages : Messages) (glacier : GlacierRows) : State where
  account := account
  glacierFolders := glacierFolders
  messages := messages
  glacier := glacier
  held := []
  glacierFolder := none
  glacierIds := []
  inScope := []
  live := []
  explicit := []
  pairs := []
  members := []
  expectedOf := []
  skipped := []
  landed := []
  log := []
  acted := []
  phase := .reading (reads q)

def system (accountId : Uuid) (q : BulkRequest) : TransitionSystem State Label where
  init s := ∃ account glacierFolders messages glacier,
    s = start q account glacierFolders messages glacier
  step := step accountId q

end MailVerdict.Model.BulkWrites
