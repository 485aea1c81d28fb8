import MailVerdict.Computation.KeyedTable
import MailVerdict.Model.Ical

/-!
# Invitation intake

`calendar/intake.py` and the import endpoint of `api/invitations.py`. An arriving
message is decided on (`decide`, a pure read), its gate row is written
(`writeIntakeRow`), its effect is written to an object (`effectOf`, `applyEffect`), and
the row is promoted (`updateStatus`): four transactions, which `processArrival` runs one
after another. `importInvitation` is the confirmation by hand.

`dav_objects` rows are in order of `created_at`. A row's `uid` is what PostIMAP parsed
from a body the server has taken, and is absent before that.
-/

namespace MailVerdict.Model.Invitations

open MailVerdict.Computation Model.Ical

abbrev Uuid := ℕ

structure DavObject where
  id : Uuid
  accountId : Uuid
  collectionId : Uuid
  uid : Option String
  data : Calendar
  deleted : Bool

abbrev Objects := KeyedTable DavObject.id

structure Identity where
  id : Uuid
  accountId : Uuid
  email : String

structure Collection where
  id : Uuid
  accountId : Uuid
  isCalendar : Bool
  deleted : Bool
  readOnly : Bool

structure CalendarPrefs where
  collectionId : Uuid
  identityId : Option Uuid
  intake : Bool

structure DavAccount where
  id : Uuid
  isActive : Bool

/-- The rows intake reads and never writes. -/
structure Directory where
  identities : List Identity
  collections : List Collection
  prefs : List CalendarPrefs
  davAccounts : List DavAccount

inductive IntakeStatus
  | imported
  | updated
  | cancelled
  | ignored
  | ignoredStale
  | unlinked
  | unauthorized
  | pending
  | pendingReview
deriving DecidableEq

structure IntakeRow where
  accountId : Uuid
  msgKey : String
  icalUid : String
  method : String
  sequence : ℤ
  recurrenceId : Option RecurrenceId
  davAccountId : Option Uuid
  collectionId : Option Uuid
  objectId : Option Uuid
  status : IntakeStatus
  reason : Option String

/-- `uq_calendar_intake_account_msg_key` -/
def IntakeRow.key (r : IntakeRow) : Uuid × String := (r.accountId, r.msgKey)

abbrev IntakeRows := KeyedTable IntakeRow.key

/-- What intake reads of a message; `msgKey` is what `compute_msg_key` makes of it. -/
structure Message where
  accountId : Uuid
  msgKey : String
  fromAddr : Option String

def Message.key (m : Message) : Uuid × String := (m.accountId, m.msgKey)

/-- A message's METHOD and the component it is about: the first one, whether or not it
carries a RECURRENCE-ID. -/
structure ParsedInvitation where
  method : String
  master : Component

/-- SOURCE: calendar/ical.py:558-590, `parse_itip_message` -/
def parseItipMessage (data : Calendar) : Option ParsedInvitation :=
  match data.method, data.vevents with
  | some method, c :: _ => some ⟨method, c⟩
  | _, _ => none

structure IntakeDecision where
  status : IntakeStatus
  reason : Option String := none
  davAccountId : Option Uuid := none
  collectionId : Option Uuid := none
  existing : Option DavObject := none

def handledMethods : List String := ["REQUEST", "CANCEL", "REPLY"]

section Reading

variable (P : Platform) (D : Directory)

/-- DAV accounts with a calendar linked to an identity of the mail account. -/
def reachable (accountId davAccountId : Uuid) : Bool :=
  D.collections.any fun c => decide (c.accountId = davAccountId) &&
    D.prefs.any fun p => decide (p.collectionId = c.id) &&
      D.identities.any fun i => decide (p.identityId = some i.id) && decide (i.accountId = accountId)

/-- SOURCE: `find_by_uid_anywhere` -/
def findByUidAnywhere (objects : Objects) (uid : String) : Option DavObject :=
  objects.rows.find? fun o => decide (o.uid = some uid) && !o.deleted

/-- SOURCE: `find_by_uid_reachable` -/
def findByUidReachable (objects : Objects) (uid : String) (accountId : Uuid) :
    Option DavObject :=
  objects.rows.find? fun o =>
    decide (o.uid = some uid) && !o.deleted && reachable D accountId o.accountId

/-- SOURCE: `_reply_attendee_authorized` -/
def replyAttendeeAuthorized (msg : Message) (inv : ParsedInvitation) : Bool :=
  match inv.master.attendees.head?, msg.fromAddr with
  | some a, some sender => decide (sender ≠ "") && decide (P.lower a.email = P.lower sender)
  | _, _ => false

/-- SOURCE: `_is_stale`: the SEQUENCE of the message against that of the stored component
it is about. -/
def isStale (existing : DavObject) (inv : ParsedInvitation) : Bool :=
  match parseMasterAndExceptions existing.data with
  | none => false
  | some (m, exceptions) =>
    match inv.master.recurrenceIdValue P with
    | none => decide (inv.master.sequenceValue < m.sequenceValue)
    | some id =>
      match exceptions.find? (Component.names P id) with
      | none => false
      | some c => decide (inv.master.sequenceValue < c.sequenceValue)

/-- SOURCE: `resolve_attendee_identity` -/
def resolveAttendeeIdentity (accountId : Uuid) (inv : ParsedInvitation) : Option Identity :=
  (D.identities.filter fun i => decide (i.accountId = accountId)).find? fun i =>
    inv.master.attendees.any fun a => decide (P.lower a.email = P.lower i.email)

def intakeCollectionId (identityId : Uuid) : Option Uuid :=
  (D.prefs.find? fun p => decide (p.identityId = some identityId) && p.intake).map
    CalendarPrefs.collectionId

def aboutExisting (status : IntakeStatus) (reason : Option String) (o : DavObject) :
    IntakeDecision :=
  { status := status, reason := reason, davAccountId := some o.accountId,
    collectionId := some o.collectionId, existing := some o }

def unlinked (reason : String) : IntakeDecision :=
  { status := .unlinked, reason := some reason }

/-- A REQUEST for a UID nothing holds: where it would be imported to, or why not. -/
def decideNew (accountId : Uuid) (inv : ParsedInvitation) : IntakeDecision :=
  match resolveAttendeeIdentity P D accountId inv with
  | none => unlinked "no identity was among the attendees"
  | some identity =>
    match intakeCollectionId D identity.id with
    | none => unlinked (identity.email ++ " has no intake calendar")
    | some collectionId =>
      match D.collections.find? fun c => decide (c.id = collectionId) with
      | none => unlinked "the intake calendar no longer exists"
      | some collection =>
        if collection.deleted then unlinked "the intake calendar no longer exists"
        else if collection.readOnly then
          unlinked (identity.email ++ "'s intake calendar is read-only")
        else if !(D.davAccounts.any fun a =>
            decide (a.id = collection.accountId) && a.isActive) then
          unlinked "the calendar's DAV account is inactive"
        else if inv.master.timing.rrule.head?.any RRule.tooDense then
          unlinked "its recurrence rule is too dense to expand safely"
        else
          { status := .imported, davAccountId := some collection.accountId,
            collectionId := some collectionId }

/-- SOURCE: calendar/intake.py:179-286, `decide` -/
def decideOn (objects : Objects) (msg : Message) (inv : ParsedInvitation) : IntakeDecision :=
  match findByUidReachable D objects inv.master.uid msg.accountId with
  | some o =>
    if inv.method = "CANCEL" then
      aboutExisting .pendingReview
        (some "an emailed cancellation needs confirming before it is applied") o
    else if inv.method = "REPLY" then
      if replyAttendeeAuthorized P msg inv then aboutExisting .updated none o
      else aboutExisting .unauthorized
        (some "the sender does not match the attendee this reply is for") o
    else if isStale P o inv then aboutExisting .ignoredStale none o
    else aboutExisting .pendingReview
      (some "an emailed update needs confirming before it is applied") o
  | none =>
    if inv.method = "CANCEL" ∨ inv.method = "REPLY" then { status := .ignored }
    else decideNew P D msg.accountId inv

end Reading

/-- What MailVerdict writes: objects, gate rows, and the next id `create_object` hands
out. -/
structure Store where
  objects : Objects
  intake : IntakeRows
  nextId : Uuid
  fresh : ∀ o ∈ objects.rows, o.id < nextId

inductive Effect
  | replace (objectId : Uuid) (data : Calendar)
  | create (davAccountId collectionId : Uuid) (data : Calendar)

section Writing

variable (P : Platform) (D : Directory)

/-- `INSERT … ON CONFLICT DO NOTHING`: the table, the row now in it, and whether it is
the one given.

SOURCE: `create_if_absent` -/
def createIfAbsent (rows : IntakeRows) (row : IntakeRow) : IntakeRows × IntakeRow × Bool :=
  if h : row.key ∈ rows.rows.map IntakeRow.key then
    match rows.find? row.key with
    | some existing => (rows, existing, false)
    | none => (rows, row, false)
  else (rows.insert row h, row, true)

/-- SOURCE: `_write_intake_row`: a decision something will be written for is recorded as
pending. -/
def intakeRow (msg : Message) (inv : ParsedInvitation) (d : IntakeDecision) : IntakeRow :=
  { accountId := msg.accountId
    msgKey := msg.msgKey
    icalUid := inv.master.uid
    method := inv.method
    sequence := inv.master.sequenceValue
    recurrenceId := inv.master.recurrenceIdValue P
    davAccountId := d.davAccountId
    collectionId := d.collectionId
    objectId := d.existing.map DavObject.id
    status := if d.status = .imported ∨ d.status = .updated then .pending else d.status
    reason := d.reason }

/-- SOURCE: `update_status(row.id, status=…, object_id=…)` -/
def updateStatus (rows : IntakeRows) (key : Uuid × String) (status : IntakeStatus)
    (objectId : Uuid) : IntakeRows :=
  rows.update (fun r => decide (r.key = key))
    (fun r => { r with status := status, reason := none, objectId := some objectId })
    fun _ => rfl

/-- The PARTSTAT `_apply` takes from the reply's first attendee. -/
def Attendee.partstatValue (a : Attendee) : Partstat := a.partstat.getD .needsAction

/-- The body a reply leaves on the object it is about. -/
def replied (data : Calendar) (inv : ParsedInvitation) (a : Attendee) :
    Except EditError Calendar :=
  match inv.master.recurrenceIdValue P with
  | some id => replaceExceptionPartstatOrAdd P data a.email (Attendee.partstatValue a) id
  | none => setPartstat P data a.email (Attendee.partstatValue a)

/-- The first transaction of `_apply`, if the decision has one. -/
def effectOf (d : IntakeDecision) (inv : ParsedInvitation) (raw : Calendar) :
    Except EditError (Option Effect) :=
  match d.status, d.existing, inv.master.attendees.head? with
  | .updated, some o, some a =>
    if inv.method = "REPLY" then (replied P o.data inv a).map fun data => some (.replace o.id data)
    else .ok none
  | .imported, _, _ =>
    match d.davAccountId, d.collectionId with
    | some account, some collection => .ok (some (.create account collection (fixed raw)))
    | _, _ => .error .crash
  | _, _, _ => .ok none

/-- SOURCE: `replace_object_data` -/
def replaceObjectData (objects : Objects) (id : Uuid) (data : Calendar) : Objects :=
  objects.update (fun o => decide (o.id = id)) (fun o => { o with data := data }) fun _ => rfl

theorem replaceObjectData_fresh {objects : Objects} {n : Uuid} (h : ∀ o ∈ objects.rows, o.id < n)
    (id : Uuid) (data : Calendar) : ∀ o ∈ (replaceObjectData objects id data).rows, o.id < n := by
  intro o ho
  obtain ⟨o', ho', rfl⟩ := KeyedTable.mem_update.1 ho
  split
  · exact h o' ho'
  · exact h o' ho'

/-- SOURCE: `create_object`. The row has no `uid` before the server has the body. -/
def newObject (id davAccountId collectionId : Uuid) (data : Calendar) : DavObject :=
  { id := id, accountId := davAccountId, collectionId := collectionId, uid := none, data := data,
    deleted := false }

def Store.create (s : Store) (davAccountId collectionId : Uuid) (data : Calendar) : Store where
  objects := s.objects.insert (newObject s.nextId davAccountId collectionId data) (by
    intro h
    obtain ⟨o, ho, hid⟩ := List.mem_map.1 h
    have hlt := s.fresh o ho
    rw [hid] at hlt
    exact absurd hlt (Nat.lt_irrefl _))
  intake := s.intake
  nextId := s.nextId + 1
  fresh := by
    intro o ho
    rcases (KeyedTable.mem_insert _).1 ho with ho | rfl
    · exact Nat.lt_succ_of_lt (s.fresh o ho)
    · exact Nat.lt_succ_self _

/-- The object write, and the id of the object written. -/
def Store.applyEffect (s : Store) : Effect → Store × Uuid
  | .replace id data =>
    ({ s with objects := replaceObjectData s.objects id data,
              fresh := replaceObjectData_fresh s.fresh id data }, id)
  | .create account collection data => (s.create account collection data, s.nextId)

/-- SOURCE: calendar/intake.py:290-334, `_apply`. An error leaves the row as it is. -/
def Store.apply (s : Store) (key : Uuid × String) (d : IntakeDecision) (inv : ParsedInvitation)
    (raw : Calendar) : Store :=
  match effectOf P d inv raw with
  | .error _ => s
  | .ok none =>
    -- A reply without an attendee, which `decide` has answered already.
    match d.status, d.existing with
    | .updated, some o =>
      if inv.method = "REPLY" then
        { s with intake := updateStatus s.intake key .ignored o.id }
      else s
    | _, _ => s
  | .ok (some e) =>
    let (s', objectId) := s.applyEffect e
    { s' with intake := updateStatus s'.intake key d.status objectId }

/-- SOURCE: calendar/intake.py:149-175, `process_arrival` -/
def Store.processArrival (s : Store) (msg : Message) (attachment : Option Calendar) : Store :=
  match attachment.bind parseItipMessage, attachment with
  | some inv, some raw =>
    if inv.method ∈ handledMethods then
      let d := decideOn P D s.objects msg inv
      let (rows, row, created) := createIfAbsent s.intake (intakeRow P msg inv d)
      let gated : Store := { s with intake := rows }
      if created ∨ row.status = .pending then gated.apply P msg.key d inv raw else gated
    else s
  | _, _ => s

end Writing

end MailVerdict.Model.Invitations
