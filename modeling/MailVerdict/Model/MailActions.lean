import MailVerdict.Computation.KeyedTable

/-!
# The mail action endpoints

`POST /messages/{id}/action` and `POST /accounts/{id}/messages/bulk-action`
(`api/mails.py`) apply one action to one message or to many. Each message has the
folder its write is guarded to, or none; the endpoint's statements are batched by
that folder, and a statement acts on each of its messages alone, so what an action
does is one function on rows (`flagRow`, `fileRow`, `rulingRow`) taken over the
table.

The messages are the live table. A move into an account's glacier folder leaves it:
`glacierNow` is what `glacier_message_now` comes to for a message, and a message it
removed from the server is expunged here. Ids of glacier rows are not messages of
this table and not named.
-/

namespace MailVerdict.Model.MailActions

open MailVerdict.Computation

abbrev Uuid := ℕ

abbrev Time := ℕ

/-- The effective special uses the actions know. -/
inductive Role
  | inbox
  | archive
  | trash
  | junk
  | other (name : String)
deriving DecidableEq

/-- SOURCE: ui/src/lib/mail-intents.ts:32-42, api/schemas.py:300-303 -/
inductive Action
  | markRead
  | markUnread
  | flag
  | unflag
  | move
  | archive
  | trash
  | expunge
  | spam
  | notSpam
deriving DecidableEq

/-- A `messages` row as the actions read and write it, with the verdict that is
current for it. -/
structure MailRow where
  id : Uuid
  accountId : Uuid
  folderId : Uuid
  threadId : Option Uuid
  createdAt : Time
  isSeen : Bool
  isFlagged : Bool
  expunged : Bool
  verdictIsSpam : Option Bool
deriving DecidableEq

abbrev Messages := KeyedTable MailRow.id

/-- What `glacier_message_now` came to: the server's copy is gone, it is still to
go, or the message was refused. -/
inductive GlacierOutcome
  | landed
  | pending
  | refused
deriving DecidableEq

/-- An account's folders and settings. `folderRole` is `get_effective_special_use`,
`specialFolder` is `resolve_special_folder`. -/
structure Account where
  ownsFolder : Uuid → Bool
  folderRole : Uuid → Option Role
  specialFolder : Role → Option Uuid
  glacierFolder : Option Uuid
  glacierNow : Uuid → GlacierOutcome
  maxManualBatch : ℕ
  markReadOnFile : Bool
  spamProcessor : Bool

abbrev HttpError := ℕ

section Rows

/-- SOURCE: api/mails.py:1922-1951 -/
def shouldMarkReadOnFile (A : Account) (targetRole : Option Role) : Bool :=
  if targetRole = some .archive ∨ targetRole = some .junk then A.markReadOnFile else false

/-- `_action_target`.
SOURCE: api/mails.py:1855-1863 -/
def actionTarget (A : Account) (action : Action) (targetFolderId : Option Uuid) : Option Uuid :=
  match action with
  | .move => targetFolderId
  | .archive => A.specialFolder .archive
  | .trash => A.specialFolder .trash
  | .spam => A.specialFolder .junk
  | .notSpam => A.specialFolder .inbox
  | .markRead | .markUnread | .flag | .unflag | .expunge => none

/-- The guard of a bulk statement: none, or still live in the folder. -/
def guardHolds (expected : Option Uuid) (r : MailRow) : Bool :=
  match expected with
  | none => true
  | some f => decide (r.folderId = f) && !r.expunged

def setFlag (action : Action) (r : MailRow) : MailRow :=
  match action with
  | .markRead => { r with isSeen := true }
  | .markUnread => { r with isSeen := false }
  | .flag => { r with isFlagged := true }
  | .unflag => { r with isFlagged := false }
  | _ => r

/-- `set_flags_bulk` on one message.
SOURCE: postimap/actions.py:341-387 -/
def flagRow (action : Action) (expected : Option Uuid) (r : MailRow) : MailRow :=
  if guardHolds expected r then setFlag action r else r

/-- `expunge_bulk` on one message.
SOURCE: postimap/actions.py:504-540 -/
def expungeRow (expected : Option Uuid) (r : MailRow) : MailRow :=
  if guardHolds expected r && !r.expunged then { r with expunged := true } else r

/-- `move_message_bulk`, or `move_messages_from` where the write is guarded to
another folder than the target.
SOURCE: postimap/actions.py:429-501, api/mails.py:2302-2320 -/
def moveRow (target : Uuid) (expected : Option Uuid) (r : MailRow) : MailRow :=
  match expected with
  | none => { r with folderId := target }
  | some f =>
    if f = target then r
    else if guardHolds expected r then { r with folderId := target } else r

/-- Whether a message is among those `move_groups` returns as landed. -/
def landsRow (target : Uuid) (expected : Option Uuid) (r : MailRow) : Bool :=
  match expected with
  | none => true
  | some f => decide (f = target) || guardHolds expected r

/-- A move, archive or trash of one message into a folder of that role.
SOURCE: api/mails.py:2366-2368 -/
def fileRow (A : Account) (target : Uuid) (role : Option Role) (expected : Option Uuid)
    (r : MailRow) : MailRow :=
  let moved := moveRow target expected r
  if landsRow target expected r && shouldMarkReadOnFile A role then { moved with isSeen := true }
  else moved

/-- The role a ruling files a message in, if it files it anywhere.
SOURCE: spam/feedback.py:182-187 -/
def rulingRole (isSpam : Bool) (prior : Option Bool) : Option Role :=
  if isSpam then some .junk else if prior = some true then some .inbox else none

/-- `apply_human_ruling` on one message; without a folder for the role it records
the ruling and raises.
SOURCE: spam/feedback.py:118-202 -/
def rulingRow (A : Account) (isSpam : Bool) (expected : Option Uuid) (r : MailRow) : MailRow :=
  let ruled := { r with verdictIsSpam := some isSpam }
  match rulingRole isSpam r.verdictIsSpam with
  | none => ruled
  | some role =>
    match A.specialFolder role with
    | none => ruled
    | some target => fileRow A target (some role) expected ruled

/-- Whether a ruling raises for want of a folder to file its message in. -/
def rulingHomeless (A : Account) (isSpam : Bool) (r : MailRow) : Bool :=
  match rulingRole isSpam r.verdictIsSpam with
  | none => false
  | some role => (A.specialFolder role).isNone

def glacierRow (A : Account) (expected : Option Uuid) (r : MailRow) : MailRow :=
  if guardHolds expected r && decide (A.glacierNow r.id = .landed) then
    { r with expunged := true }
  else r

end Rows

/-! ## The bulk endpoint -/

/-- SOURCE: api/schemas.py:297-360 -/
structure BulkActionRequest where
  action : Action
  targetFolderId : Option Uuid
  ids : List Uuid
  expandThreads : Bool
  expandThreadsThrough : Option Time
  expectedFolderIds : List (Uuid × Uuid)
deriving DecidableEq

structure BulkActionResponse where
  success : Bool
  affectedCount : ℕ
  sources : List (Uuid × Uuid)
  skippedIds : List Uuid
  targetFolderId : Option Uuid

section Bulk

variable (accountId : Uuid) (S : Messages) (q : BulkActionRequest)

/-- `_resolve_explicit_ids`: the folder of a live message of the account.
SOURCE: api/mails.py:2484-2512 -/
def liveFolder (id : Uuid) : Option Uuid :=
  match S.find? id with
  | some r => if r.accountId = accountId ∧ r.expunged = false then some r.folderId else none
  | none => none

/-- The named ids that pass the read-time check.
SOURCE: api/mails.py:2225-2236 -/
def explicitIds : List Uuid :=
  q.ids.eraseDups.filter fun id =>
    match liveFolder accountId S id, q.expectedFolderIds.lookup id with
    | some f, some g => decide (g = f)
    | some _, none => true
    | none, _ => false

/-- The named ids reported as skipped there: gone, or neither where the caller saw
them nor where the action files them. -/
def readSkipped (A : Account) : List Uuid :=
  let target :=
    if q.expectedFolderIds = [] then none else actionTarget A q.action q.targetFolderId
  q.ids.eraseDups.filter fun id =>
    match liveFolder accountId S id, q.expectedFolderIds.lookup id with
    | some f, some g => decide (g ≠ f) && decide (some f ≠ target)
    | some _, none => false
    | none, _ => true

/-- Whether a row is in the conversation, and in the folder, of one of the ids.
SOURCE: api/mails.py:2441-2461 -/
def inConversationOf (ids : List Uuid) (through : Option Time) (r : MailRow) : Bool :=
  (S.rows.any fun a => decide (a.id ∈ ids) && decide (a.accountId = accountId) && a.threadId.isSome &&
    decide (a.threadId = r.threadId) && decide (a.folderId = r.folderId)) &&
  match through with
  | none => true
  | some t => decide (r.createdAt ≤ t)

/-- `_expand_to_conversations`, in the order of the table.
SOURCE: api/mails.py:2437-2481 -/
def expandToConversations (ids : List Uuid) (through : Option Time) : List (Uuid × Uuid) :=
  (S.rows.filter fun r => decide (r.accountId = accountId) && !r.expunged &&
    (decide (r.id ∈ ids) || inConversationOf accountId S ids through r)).map fun r => (r.id, r.folderId)

/-- The members of the conversations, when the request expands them. -/
def bulkMembers : Option (List (Uuid × Uuid)) :=
  if q.expandThreads && decide (q.action ≠ .expunge) then
    some (expandToConversations accountId S (explicitIds accountId S q) q.expandThreadsThrough)
  else none

/-- `_write_guards`: the folder each write is guarded to.
SOURCE: api/mails.py:2413-2434 -/
def writeGuards : List (Uuid × Option Uuid) :=
  let explicit := explicitIds accountId S q
  match bulkMembers accountId S q with
  | none => explicit.map fun id =>
    (id, if (q.expectedFolderIds.lookup id).isSome then liveFolder accountId S id else none)
  | some members =>
    let guarded := (explicit.filter fun id =>
      (q.expectedFolderIds.lookup id).isSome).filterMap (liveFolder accountId S)
    members.map fun m => (m.1, if m.2 ∈ guarded then some m.2 else none)

/-- The table with an action on each message that has an entry. -/
def onMessages (expectedOf : List (Uuid × Option Uuid))
    (f : Option Uuid → MailRow → MailRow) (hf : ∀ e r, (f e r).id = r.id) : Messages :=
  S.update (fun r => (expectedOf.lookup r.id).isSome)
    (fun r => f ((expectedOf.lookup r.id).getD none) r) fun r => hf _ r

/-- The entries whose row satisfies `p`. -/
def entriesWhere (expectedOf : List (Uuid × Option Uuid)) (p : Option Uuid → MailRow → Bool) :
    List Uuid :=
  (expectedOf.filter fun x =>
    match S.find? x.1 with
    | some r => p x.2 r
    | none => false).map Prod.fst

end Bulk

theorem setFlag_id (action : Action) (r : MailRow) : (setFlag action r).id = r.id := by
  unfold setFlag
  split <;> rfl

theorem flagRow_id (action : Action) (e : Option Uuid) (r : MailRow) :
    (flagRow action e r).id = r.id := by
  unfold flagRow
  split
  · exact setFlag_id action r
  · rfl

theorem expungeRow_id (e : Option Uuid) (r : MailRow) : (expungeRow e r).id = r.id := by
  unfold expungeRow
  split <;> rfl

theorem moveRow_id (target : Uuid) (e : Option Uuid) (r : MailRow) :
    (moveRow target e r).id = r.id := by
  unfold moveRow
  repeat' split
  all_goals rfl

theorem fileRow_id (A : Account) (target : Uuid) (role : Option Role) (e : Option Uuid)
    (r : MailRow) : (fileRow A target role e r).id = r.id := by
  unfold fileRow
  split
  · exact moveRow_id target e r
  · exact moveRow_id target e r

theorem rulingRow_id (A : Account) (isSpam : Bool) (e : Option Uuid) (r : MailRow) :
    (rulingRow A isSpam e r).id = r.id := by
  unfold rulingRow
  repeat' split
  · rfl
  · rfl
  · exact fileRow_id A _ _ e _

theorem glacierRow_id (A : Account) (e : Option Uuid) (r : MailRow) :
    (glacierRow A e r).id = r.id := by
  unfold glacierRow
  split <;> rfl

section Endpoints

variable (accounts : Uuid → Account)

/-- `_apply_bulk_action`.
SOURCE: api/mails.py:2170-2410 -/
def applyBulkAction (accountId : Uuid) (S : Messages) (q : BulkActionRequest) :
    Messages × Except HttpError BulkActionResponse :=
  let A := accounts accountId
  let skipped := readSkipped accountId S q A
  let sources := (bulkMembers accountId S q).getD []
  let expectedOf := writeGuards accountId S q
  let done (affected : ℕ) (more : List Uuid) (target : Option Uuid) :
      Except HttpError BulkActionResponse :=
    .ok ⟨true, affected, sources, skipped ++ more, target⟩
  let failed (affected : ℕ) (more : List Uuid) (target : Option Uuid) :
      Except HttpError BulkActionResponse :=
    .ok ⟨false, affected, sources, skipped ++ more, target⟩
  let file (target : Uuid) (role : Option Role) :
      Messages × Except HttpError BulkActionResponse :=
    (onMessages S expectedOf (fileRow A target role) (fileRow_id A target role),
      done (entriesWhere S expectedOf fun e r => decide (moveRow target e r ≠ r)).length
        (entriesWhere S expectedOf fun e r => !landsRow target e r) (some target))
  if expectedOf = [] then (S, .ok ⟨true, 0, [], skipped, none⟩)
  else
    match q.action with
    | .markRead | .markUnread | .flag | .unflag =>
      (onMessages S expectedOf (flagRow q.action) (flagRow_id q.action),
        done (entriesWhere S expectedOf fun e r => decide (flagRow q.action e r ≠ r)).length [] none)
    | .expunge =>
      (onMessages S expectedOf expungeRow expungeRow_id,
        done (entriesWhere S expectedOf fun e r => decide (expungeRow e r ≠ r)).length [] none)
    | .move =>
      match q.targetFolderId with
      | none => (S, .error 400)
      | some target =>
        if A.glacierFolder = some target then
          if A.maxManualBatch < expectedOf.length then (S, .error 409)
          else
            let refused := entriesWhere S expectedOf fun e r =>
              !guardHolds e r || decide (A.glacierNow r.id = .refused)
            let landed := entriesWhere S expectedOf fun e r =>
              guardHolds e r && decide (A.glacierNow r.id = .landed)
            (onMessages S expectedOf (glacierRow A) (glacierRow_id A),
              if (entriesWhere S expectedOf fun e r =>
                  guardHolds e r && decide (A.glacierNow r.id = .refused)) = [] then
                done landed.length refused (some target)
              else failed landed.length refused (some target))
        else if !A.ownsFolder target then (S, .error 400)
        else file target (A.folderRole target)
    | .archive =>
      match A.specialFolder .archive with
      | none => (S, failed 0 [] none)
      | some target => file target (some .archive)
    | .trash =>
      match A.specialFolder .trash with
      | none => (S, failed 0 [] none)
      | some target => file target (some .trash)
    | .spam | .notSpam =>
      let isSpam := decide (q.action = .spam)
      let target := A.specialFolder (if isSpam then .junk else .inbox)
      if !A.spamProcessor then (S, failed 0 [] target)
      else
        let homeless := entriesWhere S expectedOf fun _ r => rulingHomeless A isSpam r
        (onMessages S expectedOf (rulingRow A isSpam) (rulingRow_id A isSpam),
          if homeless = [] then done expectedOf.length [] target
          else failed (expectedOf.length - homeless.length) [] target)

/-! ## The single-message endpoint -/

structure MessageActionRequest where
  action : Action
  targetFolderId : Option Uuid
  expectedFolderId : Option Uuid

structure MessageActionResponse where
  success : Bool
  applied : Bool
  folderId : Option Uuid

/-- The table with a row rewrite on one message. -/
def onMessage (S : Messages) (id : Uuid) (f : MailRow → MailRow) (hf : ∀ r, (f r).id = r.id) :
    Messages :=
  S.update (fun r => decide (r.id = id)) f hf

/-- `_apply_message_action`; the answer of a message that is no longer where the
caller saw it has `applied = false`.
SOURCE: api/mails.py:1541-1665 -/
def applyMessageAction (S : Messages) (id : Uuid) (q : MessageActionRequest) :
    Messages × Except HttpError MessageActionResponse :=
  match S.find? id with
  | none => (S, .error 404)
  | some r =>
    let A := accounts r.accountId
    let expected := q.expectedFolderId
    let notApplied : Except HttpError MessageActionResponse := .ok ⟨true, false, none⟩
    let applied : Except HttpError MessageActionResponse := .ok ⟨true, true, none⟩
    let file (target : Uuid) (role : Option Role) :
        Messages × Except HttpError MessageActionResponse :=
      if landsRow target expected r then
        (onMessage S id (fileRow A target role expected) (fileRow_id A target role expected),
          applied)
      else (S, notApplied)
    if r.expunged then (S, .error 404)
    else if expected.isSome && decide (expected ≠ some r.folderId) then
      if actionTarget A q.action q.targetFolderId = some r.folderId then
        (S, .ok ⟨true, true, some r.folderId⟩)
      else (S, notApplied)
    else
      match q.action with
      | .markRead | .markUnread | .flag | .unflag =>
        (onMessage S id (flagRow q.action expected) (flagRow_id q.action expected), applied)
      | .expunge =>
        (onMessage S id (expungeRow expected) (expungeRow_id expected), applied)
      | .move =>
        match q.targetFolderId with
        | none => (S, .error 400)
        | some target =>
          if A.glacierFolder = some target then
            match A.glacierNow id with
            | .landed =>
              (onMessage S id (glacierRow A none) (glacierRow_id A none),
                .ok ⟨true, true, some target⟩)
            | .pending => (S, .ok ⟨true, true, some target⟩)
            | .refused => (S, .ok ⟨false, false, none⟩)
          else if !A.ownsFolder target then (S, .error 400)
          else file target (A.folderRole target)
      | .archive =>
        match A.specialFolder .archive with
        | none => (S, .error 400)
        | some target => file target (some .archive)
      | .trash =>
        match A.specialFolder .trash with
        | none => (S, .error 400)
        | some target => file target (some .trash)
      | .spam | .notSpam =>
        let isSpam := decide (q.action = .spam)
        if !A.spamProcessor then (S, .error 503)
        else
          let ruled := onMessage S id (rulingRow A isSpam expected)
            (rulingRow_id A isSpam expected)
          if rulingHomeless A isSpam r then (ruled, .error 400) else (ruled, applied)

/-- `_apply_and_locate`: the folder the message is in now, where the branch did not
say.
SOURCE: api/mails.py:1519-1538 -/
def applyAndLocate (S : Messages) (id : Uuid) (q : MessageActionRequest) :
    Messages × Except HttpError MessageActionResponse :=
  let result := applyMessageAction accounts S id q
  match result.2 with
  | .error e => (result.1, .error e)
  | .ok response =>
    if response.applied && response.folderId.isNone then
      (result.1, .ok { response with folderId := (result.1.find? id).map MailRow.folderId })
    else (result.1, .ok response)

end Endpoints

end MailVerdict.Model.MailActions
