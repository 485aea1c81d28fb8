import MailVerdict.Computation.ReadModifyWrite
import MailVerdict.Model.Invitations
import Mathlib.Data.List.Infix

/-!
# The calendar event endpoints

`api/calendar_events.py` and the write `api/invitations.py` makes to an object already
held: what each operation makes of the body it read. `identity` is the address of the
identity the object's calendar is linked to, if any. A move to another calendar and what
is mailed on success do not touch the body and are not part of these functions.
-/

namespace MailVerdict.Model.CalendarEvents

open MailVerdict.Computation Model.Ical Model.Invitations

inductive Scope
  | this
  | following
  | all
deriving DecidableEq

/-- A PATCH body. Whether `attendees` or `tz` was given is all the endpoint reads of
them. -/
structure EventUpdateRequest where
  fields : FieldOverrides
  scope : Option Scope := none
  recurrenceId : Option RecurrenceId := none
  attendeesGiven : Bool := false
  tzGiven : Bool := false

/-- SQL `LIKE`: a percent sign stands for any text, an underscore for one character. -/
def like : List Char → List Char → Bool
  | [], text => text.isEmpty
  | '%' :: pattern, text => text.tails.any fun rest => like pattern rest
  | '_' :: pattern, text => text.tail? |>.any (like pattern)
  | '\\' :: c :: pattern, text => text.head? == some c && like pattern text.tail
  | c :: pattern, text => text.head? == some c && like pattern text.tail

section

variable (P : Platform)

/-- SQL `ILIKE`: `delete_event` passes it the organizer's address as the pattern. -/
def ilike (text pattern : String) : Bool :=
  like (P.lower pattern).toList (P.lower text).toList

/-- SOURCE: api/calendar_events.py:656-668: the linked identity is the ORGANIZER. -/
def organizes (identity : Option String) (m : Component) : Bool :=
  match identity, m.organizer with
  | some email, some o => decide (P.lower email = P.lower o.email)
  | _, _ => false

/-- SOURCE: api/calendar_events.py:773-782: the same question, asked with `ILIKE`. -/
def organizesIlike (identity : Option String) (m : Component) : Bool :=
  match identity, m.organizer with
  | some email, some o => ilike P email o.email
  | _, _ => false

/-- SEQUENCE advances on an event without an ORGANIZER or organized here. -/
def bumpSequence (organizer : Bool) (m : Component) : Bool := m.organizer.isNone || organizer

/-- SOURCE: api/calendar_events.py:602-720, `update_event` -/
def updateEvent (identity : Option String) (cal : Calendar) (req : EventUpdateRequest) :
    Except EditError Calendar :=
  if req.scope = some .following then
    .error (.valueError "scope=following (splitting a series) is not implemented")
  else if req.attendeesGiven then
    .error (.valueError "changing attendees on an existing event is not supported")
  else if req.tzGiven then
    .error (.valueError
      "tz cannot be set on an existing event; dtstart/dtend already carry the instant")
  else if req.recurrenceId.isSome && !decide (req.scope = some .this) then
    .error (.valueError "recurrence_id requires scope=this")
  else
    match parseMasterAndExceptions cal with
    | none => .error .crash
    | some (m, _) =>
      let bump := bumpSequence (organizes P identity m) m
      if req.scope = some .this then
        match req.recurrenceId with
        | none => .error (.valueError "scope=this requires recurrence_id")
        | some id => editOccurrence P cal id req.fields bump
      else replaceMasterFields P cal req.fields bump

/-- SOURCE: api/calendar_events.py:750-799, `delete_event` with scope "this" -/
def deleteOccurrence (identity : Option String) (cal : Calendar) (id : RecurrenceId) :
    Except EditError Calendar :=
  match parseMasterAndExceptions cal with
  | none => .error .crash
  | some (m, _) => markCancelled P cal (some id) (bumpSequence (organizesIlike P identity m) m)

/-- What the editor's form holds besides the times. -/
structure EditorForm where
  summary : String
  location : String
  description : String
  rrule : String
  reminders : List Reminder
  transparency : Transparency

/-- The two ways to change a shown occurrence: the form, or a drag on the grid. -/
inductive Gesture
  | save (form : EditorForm)
  | drag

/-- `toISOString`: the instant, in UTC. -/
def isoTime (seconds : Instant) : RequestTime := ⟨seconds, some "UTC"⟩

/-- What is sent once a change is confirmed for all events: the times of the occurrence it
was made on, moved as the person moved them. The form sends every field it has, an all-day
end converted to its last day and back.

SOURCE: event-editor.tsx:389-407 (`buildCommonPayload`), 425-448 (`doSave`);
time-grid.tsx:142-159 (`commitMove`) -/
def Gesture.request (shown : ParsedEvent) (byStart byEnd : ℤ) : Gesture → EventUpdateRequest
  | save form =>
    { fields :=
        { summary := some form.summary
          dtstart := some (isoTime (shown.dtstart + byStart))
          dtend := some (isoTime (shown.dtend + byEnd))
          allDay := some shown.allDay
          location := nonEmpty (some form.location)
          description := nonEmpty (some form.description)
          rrule := some form.rrule
          reminders := some form.reminders
          transparency := some form.transparency }
      scope := some .all }
  | drag =>
    { fields :=
        { dtstart := some (isoTime (shown.dtstart + byStart))
          dtend := some (isoTime (shown.dtend + byEnd)) }
      scope := some .all }

/-- The component `respond_to_event` answers for: the exception named, else the master. -/
def respondTarget (m : Component) (exceptions : List Component) (id : Option RecurrenceId) :
    Component :=
  match id with
  | none => m
  | some id => (exceptions.find? (Component.names P id)).getD m

/-- SOURCE: api/calendar_events.py:817-857, `respond_to_event`, up to its write -/
def respondToEvent (cal : Calendar) (email : String) (partstat : Partstat)
    (id : Option RecurrenceId) : Except EditError Calendar :=
  match parseMasterAndExceptions cal with
  | none => .error .crash
  | some (m, exceptions) =>
    if (respondTarget P m exceptions id).isAttendee P email then
      match id with
      | some id => replaceExceptionPartstatOrAdd P cal email partstat id
      | none => setPartstat P cal email partstat
    else .error (.valueError "not an attendee of this event")

/-- SOURCE: `build_reply_ics`, which `respond_to_event` calls after its write: it fails
without the component or its ORGANIZER. -/
def buildReplyFails (cal : Calendar) (id : Option RecurrenceId) : Bool :=
  match cal.vevents.find? fun c => decide (c.recurrenceIdValue P = id) with
  | none => true
  | some c => c.organizer.isNone

/-- A rule `validate_rrule_frequency` refuses on the message's component. -/
def importRefused (inv : ParsedInvitation) : Bool :=
  decide (inv.method ≠ "CANCEL") && inv.master.timing.rrule.head?.any RRule.tooDense

/-- SOURCE: api/invitations.py:275-298, `import_invitation` against an object already
held -/
def importInto (existing raw : Calendar) (inv : ParsedInvitation) : Except EditError Calendar :=
  if importRefused inv then
    .error (.valueError "This invitation's recurrence rule is not supported")
  else if inv.method = "CANCEL" then markCancelled P existing (inv.master.recurrenceIdValue P) true
  else
    match inv.master.recurrenceIdValue P with
    | some id => mergeException P existing (fixed raw) id
    | none => .ok (fixed raw)

/-- The five paths that read an object's body and write the whole of it back. -/
inductive BodyOp
  | update (identity : Option String) (req : EventUpdateRequest)
  | deleteOccurrence (identity : Option String) (id : RecurrenceId)
  | respond (email : String) (partstat : Partstat) (id : Option RecurrenceId)
  | importMessage (raw : Calendar)
  | reply (msg : Message) (raw : Calendar)

/-- The body an operation writes, given the body it read. -/
def BodyOp.write (cal : Calendar) : BodyOp → Option Calendar
  | update identity req => (updateEvent P identity cal req).toOption
  | deleteOccurrence identity id =>
    (CalendarEvents.deleteOccurrence P identity cal id).toOption
  | respond email partstat id => (respondToEvent P cal email partstat id).toOption
  | importMessage raw =>
    (parseItipMessage raw).bind fun inv => (importInto P cal raw inv).toOption
  | reply msg raw =>
    (parseItipMessage raw).bind fun inv =>
      if inv.method = "REPLY" ∧ replyAttendeeAuthorized P msg inv then
        inv.master.attendees.head?.bind fun a => (replied P cal inv a).toOption
      else none

/-- Whether it reports success after its write: an edit and an answer read the object once
more and parse it, and an answer builds the mail to the organizer first. -/
def BodyOp.reports (written current : Calendar) : BodyOp → Bool
  | update _ _ => (parseMasterAndExceptions current).isSome
  | deleteOccurrence _ _ => true
  | respond _ _ id =>
    !buildReplyFails P written id && (parseMasterAndExceptions current).isSome
  | importMessage _ => true
  | reply _ _ => true

def BodyOp.operation (op : BodyOp) : Operation Calendar where
  write cal := op.write P cal
  reports written current := op.reports P written current

end

end MailVerdict.Model.CalendarEvents
