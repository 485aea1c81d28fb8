import Mathlib.Data.Int.Notation
import MailVerdict.Computation.FirstMatch

/-!
# Calendar objects

`calendar/ical.py`: one `dav_objects` body is a VCALENDAR, read here as its METHOD
and its VEVENT components in the order they stand. The master is the first component
without a RECURRENCE-ID; every other component names the occurrence it overrides.

Texts stay texts where the code only copies them. STATUS, PARTSTAT, TRANSP and the
parts of an RRULE are read as the code reads them. What the code takes from outside
(the time-zone database, `str.lower`, the RRULE parser and the recurrence library) is
the `Platform`.
-/

namespace MailVerdict.Model.Ical

open MailVerdict.Computation

/-- A `tzinfo`, by its name. -/
abbrev Zone := String

abbrev Instant := ℤ

abbrev Day := ℤ

/-- The value of a DATE or DATE-TIME property. A date-time carries its instant and
its `tzinfo`; without one (a floating time) the number is its wall clock read as UTC. -/
inductive ICalTime
  | date (day : Day)
  | timed (seconds : Instant) (zone : Option Zone)
deriving DecidableEq

/-- A recurrence id as it crosses the API: the day of an all-day occurrence or the UTC
instant of a timed one, which is all `_recurrence_id_value` ever returns, or the bare
local time a caller may still send. -/
inductive RecurrenceId
  | day (d : Day)
  | instant (seconds : Instant)
  | localTime (seconds : Instant)
deriving DecidableEq

inductive EventStatus
  | confirmed
  | tentative
  | cancelled
deriving DecidableEq

inductive Transparency
  | opaqueTime
  | transparent
deriving DecidableEq

inductive Partstat
  | needsAction
  | accepted
  | declined
  | tentative
  | other (token : String)
deriving DecidableEq

structure Organizer where
  email : String
  cn : Option String
  scheduleAgent : Option String
deriving DecidableEq

/-- An ATTENDEE line; `email` is its address without `mailto:`. -/
structure Attendee where
  email : String
  cn : Option String
  partstat : Option Partstat
  role : Option String
  scheduleAgent : Option String
deriving DecidableEq

/-- A DISPLAY alarm's trigger, in minutes from the start or at an instant. -/
inductive Reminder
  | offset (minutes : ℤ)
  | absolute (at_ : Instant)
deriving DecidableEq

/-- A VALARM: one of this application's reminders, or another client's alarm. -/
inductive Alarm
  | display (trigger : Option Reminder)
  | other (text : String)
deriving DecidableEq

/-- The parts of an RRULE: `FREQ` in upper case, every part with its values. -/
structure RRule where
  parts : List (String × List String)
deriving DecidableEq

def RRule.part (r : RRule) (name : String) : List String := (r.parts.lookup name).getD []

/-- What a series' occurrences are generated from. -/
structure Timing where
  dtstart : Option ICalTime
  dtend : Option ICalTime
  duration : Option ℤ
  rrule : List RRule
  rdate : List ICalTime
  exdate : List ICalTime
deriving DecidableEq

structure Span where
  start : ICalTime
  stop : ICalTime

structure Component where
  uid : String
  summary : Option String
  location : Option String
  description : Option String
  status : Option EventStatus
  sequence : Option ℤ
  organizer : Option Organizer
  attendees : List Attendee
  timing : Timing
  recurrenceId : Option ICalTime
  alarms : List Alarm
  transp : Option Transparency
deriving DecidableEq

structure Calendar where
  method : Option String
  vevents : List Component
deriving DecidableEq

/-- The id of the RECURRENCE-ID a generated occurrence carries, which names its own
start. -/
def stampedId : ICalTime → RecurrenceId
  | .date d => .day d
  | .timed s _ => .instant s

/-- What the code takes from outside `src/`: the wall clock a zone shows at an instant
and the instant it resolves a wall clock to, `str.lower`, `vRecur.from_ical`, and the
occurrences recurring-ical-events generates, each under the id it stamps on it. -/
structure Platform where
  wall : Zone → Instant → Instant
  resolve : Zone → Instant → Instant
  lower : String → String
  parseRrule : String → Option RRule
  generate : Timing → RecurrenceId → Option Span
  generate_stamped : ∀ t id span, generate t id = some span → stampedId span.start = id

/-- What a request is refused with: a `ValueError`, answered 400, or any other
exception, answered 500. -/
inductive EditError
  | valueError (text : String)
  | crash

def secondsPerDay : ℤ := 86400

/-- SOURCE: `_to_datetime` -/
def ICalTime.toDatetime : ICalTime → Instant
  | .date d => d * secondsPerDay
  | .timed s _ => s

def ICalTime.isDate : ICalTime → Bool
  | .date _ => true
  | .timed _ _ => false

def ICalTime.zone : ICalTime → Option Zone
  | .date _ => none
  | .timed _ z => z

section Reading

variable (P : Platform)

/-- `value + timedelta(seconds=n)`: whole days on a date, wall clock on a date-time. -/
def ICalTime.add : ICalTime → ℤ → ICalTime
  | .date d, n => .date (d + n / secondsPerDay)
  | .timed s none, n => .timed (s + n) none
  | .timed s (some z), n => .timed (P.resolve z (P.wall z s + n)) (some z)

/-- SOURCE: `_recurrence_id_value`. A floating RECURRENCE-ID is resolved against the
zone of the component's own DTSTART, and read as UTC when that has none. -/
def Component.recurrenceIdValue (c : Component) : Option RecurrenceId :=
  c.recurrenceId.map fun value =>
    match value with
    | .date d => .day d
    | .timed s (some _) => .instant s
    | .timed s none =>
      match c.timing.dtstart.bind ICalTime.zone with
      | some z => .instant (P.resolve z s)
      | none => .instant s

/-- DTEND, or the end DURATION gives, or the default for a component with neither. -/
def Timing.endValue (t : Timing) (start : ICalTime) : ICalTime :=
  match t.dtend, t.duration with
  | some e, _ => e
  | none, some n => start.add P n
  | none, none => if start.isDate then start.add P secondsPerDay else start

/-- One occurrence as the API shows it. Its recurrence id is the key it is shown under;
the rule and the two series flags, which every occurrence reports alike, are left out. -/
structure ParsedEvent where
  uid : String
  summary : String
  dtstart : Instant
  dtend : Instant
  tz : Option Zone
  allDay : Bool
  location : Option String
  description : Option String
  status : EventStatus
  sequence : ℤ
  organizer : Option Organizer
  attendees : List Attendee
  reminders : List Reminder
  transparency : Transparency

/-- `str(component[name]) if component.get(name) else None` -/
def nonEmpty (text : Option String) : Option String := text.filter fun s => s ≠ ""

def Component.sequenceValue (c : Component) : ℤ := c.sequence.getD 0

def Alarm.reminder : Alarm → Option Reminder
  | .display trigger => trigger
  | .other _ => none

/-- SOURCE: `_parse_reminders` -/
def parseReminders (alarms : List Alarm) : List Reminder := alarms.filterMap Alarm.reminder

/-- SOURCE: `_parse_component`, strict: no DTSTART is an error. -/
def parseComponent (c : Component) : Option ParsedEvent :=
  c.timing.dtstart.map fun start =>
    { uid := c.uid
      summary := c.summary.getD ""
      dtstart := start.toDatetime
      dtend := (c.timing.endValue P start).toDatetime
      tz := start.zone
      allDay := start.isDate
      location := nonEmpty c.location
      description := nonEmpty c.description
      status := c.status.getD .confirmed
      sequence := c.sequenceValue
      organizer := c.organizer
      attendees := c.attendees
      reminders := parseReminders c.alarms
      transparency := c.transp.getD .opaqueTime }

/-- The first component without a RECURRENCE-ID. -/
def Calendar.master (cal : Calendar) : Option Component :=
  cal.vevents.find? fun c => c.recurrenceId.isNone

/-- SOURCE: calendar/ical.py:513-539, `parse_master_and_exceptions`: none is a
`ValueError`. -/
def parseMasterAndExceptions (cal : Calendar) : Option (Component × List Component) :=
  let exceptions := cal.vevents.filter fun c => c.recurrenceId.isSome
  cal.master.bind fun m =>
    if (m :: exceptions).all fun c => c.timing.dtstart.isSome then some (m, exceptions) else none

/-- Whether a component is the override of the occurrence `id`. -/
def Component.names (id : RecurrenceId) (c : Component) : Bool :=
  decide (c.recurrenceIdValue P = some id)

/-- The stored component whose RECURRENCE-ID names the occurrence: the first one, as
every reader of the body takes it. -/
def Calendar.override (cal : Calendar) (id : RecurrenceId) : Option Component :=
  cal.vevents.find? (Component.names P id)

/-- The component recurring-ical-events hands out for a generated occurrence. -/
def Component.occurrence (c : Component) (span : Span) : Component :=
  { c with
    timing :=
      { dtstart := some span.start, dtend := some span.stop, duration := none,
        rrule := [], rdate := [], exdate := [] }
    recurrenceId := some span.start }

/-- The expansion of a body, occurrence by occurrence: `shownAt cal id` is what is shown
for the occurrence `id`. An occurrence a stored component names is shown as that
component, at its own times; every other one the master's rule generates is shown as
the master, at the generated times. A window shows the occurrences that overlap it. A component
that names an occurrence the rule does not generate is shown all the same.

SOURCE: `expand_from_query` over recurring-ical-events -/
def Calendar.shownAt (cal : Calendar) (id : RecurrenceId) : Option ParsedEvent :=
  match cal.override P id with
  | some c => parseComponent P c
  | none =>
    cal.master.bind fun m =>
      (P.generate m.timing id).bind fun span => parseComponent P (m.occurrence span)

end Reading

section Writing

variable (P : Platform)

/-- `dt.date()`: the day on the value's own wall clock. -/
def dateOf (seconds : Instant) (zone : Option Zone) : Day :=
  match zone with
  | some z => P.wall z seconds / secondsPerDay
  | none => seconds / secondsPerDay

/-- A `datetime` of a request: an instant in the zone its offset names. -/
structure RequestTime where
  seconds : Instant
  zone : Option Zone

/-- SOURCE: `_in_existing_zone`: the same instant in the zone of the property replaced,
else in DTSTART's, else as it came. -/
def inExistingZone (current dtstart : Option ICalTime) (value : RequestTime) : ICalTime :=
  match (current.bind ICalTime.zone).or (dtstart.bind ICalTime.zone) with
  | some z => .timed value.seconds (some z)
  | none => .timed value.seconds value.zone

/-- `end_value <= start_value`, or none where Python refuses to compare the two. Two
date-times of one zone are compared by their wall clocks. -/
def notAfter (stop start : ICalTime) : Option Bool :=
  match stop, start with
  | .date e, .date s => some (decide (e ≤ s))
  | .timed e none, .timed s none => some (decide (e ≤ s))
  | .timed e (some ze), .timed s (some zs) =>
    some (if ze = zs then decide (P.wall ze e ≤ P.wall zs s) else decide (e ≤ s))
  | .timed _ _, .timed _ _ => none
  | _, _ => some false

/-- SOURCE: `validate_rrule_frequency`, without a COUNT exemption. -/
def RRule.tooDense (r : RRule) : Bool :=
  (r.part "FREQ").head? == some "SECONDLY" || (r.part "FREQ").head? == some "MINUTELY" ||
    !(r.part "BYSECOND").isEmpty || !(r.part "BYMINUTE").isEmpty

/-- The fields of a PATCH; an absent one is left as it is. -/
structure FieldOverrides where
  summary : Option String := none
  dtstart : Option RequestTime := none
  dtend : Option RequestTime := none
  allDay : Option Bool := none
  location : Option String := none
  description : Option String := none
  rrule : Option String := none
  reminders : Option (List Reminder) := none
  transparency : Option Transparency := none

/-- `all_day if all_day is not None else` whether DTSTART is a date; there is nothing to
ask without a DTSTART. -/
def isAllDay (allDay : Option Bool) (dtstart : Option ICalTime) : Except EditError Bool :=
  match allDay, dtstart with
  | some b, _ => .ok b
  | none, some start => .ok start.isDate
  | none, none => .error .crash

def overrideTime (allDay : Option Bool) (current dtstart : Option ICalTime)
    (value : RequestTime) : Except EditError ICalTime :=
  match isAllDay allDay dtstart with
  | .error e => .error e
  | .ok true => .ok (.date (dateOf P value.seconds value.zone))
  | .ok false => .ok (inExistingZone current dtstart value)

/-- One of the two times of an edit: as it was, or overridden. -/
def editedTime (allDay : Option Bool) (current dtstart : Option ICalTime)
    (value : Option RequestTime) : Except EditError (Option ICalTime) :=
  match value with
  | none => .ok current
  | some v => (overrideTime P allDay current dtstart v).map some

/-- The check made after both times are written, where either was given. -/
def checkRange (given : Bool) (dtstart dtend : Option ICalTime) : Except EditError Unit :=
  match given, dtstart, dtend with
  | true, some s, some e =>
    match notAfter P e s with
    | none => .error .crash
    | some true => .error (.valueError "dtend must be after dtstart")
    | some false => .ok ()
  | _, _, _ => .ok ()

/-- SOURCE: `if rrule is not None: ...`: an empty text removes the rule. -/
def editedRrule (current : List RRule) (rrule : Option String) : Except EditError (List RRule) :=
  match rrule with
  | none => .ok current
  | some text =>
    if text = "" then .ok []
    else
      match P.parseRrule text with
      | none => .error (.valueError "invalid recurrence rule")
      | some r =>
        if r.tooDense then .error (.valueError "recurs too frequently to be usable")
        else .ok [r]

def Alarm.isDisplay : Alarm → Bool
  | .display _ => true
  | .other _ => false

/-- SOURCE: `_replace_display_alarms` -/
def replaceDisplayAlarms (alarms : List Alarm) (reminders : Option (List Reminder)) :
    List Alarm :=
  match reminders with
  | none => alarms
  | some rs => alarms.filter (fun a => !a.isDisplay) ++ rs.map fun r => .display (some r)

def Component.bumped (c : Component) (bumpSequence : Bool) : Component :=
  if bumpSequence then { c with sequence := some (c.sequenceValue + 1) } else c

/-- SOURCE: calendar/ical.py:959-1021, `_apply_field_overrides` -/
def applyFieldOverrides (c : Component) (f : FieldOverrides) (bumpSequence : Bool) :
    Except EditError Component := do
  let dtstart ← editedTime P f.allDay c.timing.dtstart c.timing.dtstart f.dtstart
  let dtend ← editedTime P f.allDay c.timing.dtend dtstart f.dtend
  checkRange P (f.dtstart.isSome || f.dtend.isSome) dtstart dtend
  let rrule ← editedRrule P c.timing.rrule f.rrule
  return Component.bumped
    { c with
      summary := f.summary.or c.summary
      timing := { c.timing with dtstart := dtstart, dtend := dtend, rrule := rrule }
      location := f.location.or c.location
      description := f.description.or c.description
      alarms := replaceDisplayAlarms c.alarms f.reminders
      transp := f.transparency.or c.transp }
    bumpSequence

/-- SOURCE: `_recurrence_id_property`: the id as a property value in the zone of the
series' DTSTART. -/
def recurrenceIdProperty (dtstart : Option ICalTime) (id : RecurrenceId) : ICalTime :=
  match id with
  | .day d => .date d
  | .instant s | .localTime s => .timed s (some ((dtstart.bind ICalTime.zone).getD "UTC"))

/-- The master copied as an exception for the occurrence `id`: its rule dropped, every
other property, DTSTART and DTEND among them, as the master has it. -/
def Component.clonedFor (m : Component) (id : RecurrenceId) : Component :=
  { m with
    timing := { m.timing with rrule := [] }
    recurrenceId := some (recurrenceIdProperty m.timing.dtstart id) }

/-- Write to the first component `p` picks. -/
def Calendar.setFirst (cal : Calendar) (p : Component → Bool) (c : Component) : Calendar :=
  { cal with vevents := replaceFirst p c cal.vevents }

/-- SOURCE: `_get_or_clone_exception`, and the write the caller makes to the component it
returns: the stored exception is changed in place, a clone is appended. -/
def Calendar.onException (cal : Calendar) (id : RecurrenceId)
    (change : Component → Except EditError Component) : Except EditError Calendar :=
  match cal.override P id with
  | some c => do
      let changed ← change c
      return cal.setFirst (Component.names P id) changed
  | none =>
    match cal.master with
    | none => .error (.valueError "VCALENDAR has no master VEVENT")
    | some m => do
        let changed ← change (m.clonedFor id)
        return { cal with vevents := cal.vevents ++ [changed] }

/-- SOURCE: `_find_component(cal, None)`, and the write to what it returns. -/
def Calendar.onMaster (cal : Calendar) (missing : String)
    (change : Component → Except EditError Component) : Except EditError Calendar :=
  match cal.master with
  | none => .error (.valueError missing)
  | some m => do
      let changed ← change m
      return cal.setFirst (fun c => c.recurrenceId.isNone) changed

/-- SOURCE: calendar/ical.py:1024-1066, `replace_master_fields` -/
def replaceMasterFields (cal : Calendar) (f : FieldOverrides) (bumpSequence : Bool) :
    Except EditError Calendar :=
  cal.onMaster "VCALENDAR has no master VEVENT" fun m => applyFieldOverrides P m f bumpSequence

/-- SOURCE: calendar/ical.py:1118-1149, `edit_occurrence` -/
def editOccurrence (cal : Calendar) (id : RecurrenceId) (f : FieldOverrides)
    (bumpSequence : Bool) : Except EditError Calendar :=
  cal.onException P id fun c => applyFieldOverrides P c { f with rrule := none } bumpSequence

/-- The attendees with the PARTSTAT of every line of that address set. -/
def withPartstat (email : String) (partstat : Partstat) (attendees : List Attendee) :
    List Attendee :=
  attendees.map fun a =>
    if P.lower a.email = P.lower email then { a with partstat := some partstat } else a

def Component.isAttendee (email : String) (c : Component) : Bool :=
  c.attendees.any fun a => decide (P.lower a.email = P.lower email)

def Component.answered (c : Component) (email : String) (partstat : Partstat) : Component :=
  { c with attendees := withPartstat P email partstat c.attendees }

/-- The write of `set_partstat`, refused to an address that is not an attendee. -/
def Component.answeredByAttendee (c : Component) (email : String) (partstat : Partstat) :
    Except EditError Component :=
  if c.isAttendee P email then .ok (c.answered P email partstat)
  else .error (.valueError "not an attendee of this event")

/-- SOURCE: `set_partstat(data, email, partstat)` on the master -/
def setPartstat (cal : Calendar) (email : String) (partstat : Partstat) :
    Except EditError Calendar :=
  cal.onMaster "No matching VEVENT" fun m => m.answeredByAttendee P email partstat

/-- SOURCE: calendar/ical.py:1229-1240, `replace_exception_partstat_or_add` -/
def replaceExceptionPartstatOrAdd (cal : Calendar) (email : String) (partstat : Partstat)
    (id : RecurrenceId) : Except EditError Calendar :=
  cal.onException P id fun c => .ok (c.answered P email partstat)

/-- `STATUS:CANCELLED`, and the next SEQUENCE where asked for. -/
def Component.cancelled (c : Component) (bumpSequence : Bool) : Component :=
  Component.bumped { c with status := some .cancelled } bumpSequence

/-- SOURCE: calendar/ical.py:1185-1203, `mark_cancelled` -/
def markCancelled (cal : Calendar) (id : Option RecurrenceId) (bumpSequence : Bool) :
    Except EditError Calendar :=
  match id with
  | some id => cal.onException P id fun c => .ok (c.cancelled bumpSequence)
  | none => cal.onMaster "No matching VEVENT" fun m => .ok (m.cancelled bumpSequence)

/-- SOURCE: calendar/ical.py:1206-1226, `merge_exception` -/
def mergeException (existing incoming : Calendar) (id : RecurrenceId) :
    Except EditError Calendar :=
  match incoming.vevents with
  | [] => .error (.valueError "Incoming body has no VEVENT to merge")
  | c :: _ =>
    .ok { existing with
          vevents := (existing.vevents.filter fun e => !Component.names P id e) ++ [c] }

/-- SOURCE: `strip_method` -/
def stripMethod (cal : Calendar) : Calendar := { cal with method := none }

/-- SOURCE: `with_method` -/
def withMethod (cal : Calendar) (method : String) : Calendar := { cal with method := some method }

/-- SOURCE: `set_schedule_agent_client_on_organizer` -/
def setScheduleAgentClientOnOrganizer (cal : Calendar) : Calendar :=
  { cal with
    vevents := cal.vevents.map fun c =>
      { c with organizer := c.organizer.map fun o => { o with scheduleAgent := some "CLIENT" } } }

/-- The body a REQUEST is stored as on the attendee's side. -/
def fixed (cal : Calendar) : Calendar := setScheduleAgentClientOnOrganizer (stripMethod cal)

end Writing

end MailVerdict.Model.Ical

/-!
# Events this application originates

`build_new_event` (`calendar/ical.py`): the body of a new event, from the times, texts and
attendees of a request. The end is checked against the start before either is cut to a
day. A request's wall clock is bound to a named zone as the instant the zone resolves it
to; `zones` are the names `ZoneInfo` knows. The UID is drawn by the caller's `uuid4`, and
DTSTAMP and the VTIMEZONE, which nothing here reads, are left out.

SOURCE: calendar/ical.py:766-916
-/

namespace MailVerdict.Model.NewEvents

open Model.Ical

structure NewEvent where
  summary : String
  dtstart : RequestTime
  dtend : RequestTime
  allDay : Bool := false
  location : Option String := none
  description : Option String := none
  rrule : Option String := none
  tz : Option Zone := none
  organizerEmail : Option String := none
  organizerCn : Option String := none
  attendees : List (String × Option String) := []
  reminders : List Reminder := []
  transparency : Option Transparency := none

section

variable (P : Platform)

def wallClock (v : RequestTime) : Instant :=
  match v.zone with
  | some z => P.wall z v.seconds
  | none => v.seconds

/-- A `datetime` written as it came. -/
def asGiven (v : RequestTime) : ICalTime := .timed v.seconds v.zone

/-- SOURCE: `_bind_to_zone`, one of the two: the wall clock is kept, and read in the zone. -/
def boundTo (tz : Zone) (v : RequestTime) : ICalTime :=
  .timed (P.resolve tz (wallClock P v)) (some tz)

/-- `value.date()` -/
def dayOf (v : RequestTime) : Day := dateOf P v.seconds v.zone

variable (zones : Zone → Bool)

/-- DTSTART and DTEND as they are written. Two bound times are of one zone, so their wall
clocks are compared. -/
def newTimes (r : NewEvent) : Except EditError (ICalTime × ICalTime) :=
  match r.tz with
  | some tz =>
    if r.allDay then .error (.valueError "tz cannot be given for an all-day event")
    else if !zones tz then .error (.valueError ("Unknown timezone: '" ++ tz ++ "'"))
    else if wallClock P r.dtend ≤ wallClock P r.dtstart then
      .error (.valueError "dtend must be after dtstart")
    else .ok (boundTo P tz r.dtstart, boundTo P tz r.dtend)
  | none =>
    match notAfter P (asGiven r.dtend) (asGiven r.dtstart) with
    | none => .error .crash
    | some true => .error (.valueError "dtend must be after dtstart")
    | some false =>
      .ok (if r.allDay then (.date (dayOf P r.dtstart), .date (dayOf P r.dtend))
        else (asGiven r.dtstart, asGiven r.dtend))

/-- `if attendees: ...`: the ORGANIZER they need. -/
def newOrganizer (r : NewEvent) : Except EditError (Option Organizer) :=
  if r.attendees.isEmpty then .ok none
  else
    match nonEmpty r.organizerEmail with
    | none => .error (.valueError "An event with attendees needs an organizer")
    | some email =>
      .ok (some { email := email, cn := nonEmpty r.organizerCn, scheduleAgent := none })

def newAttendee (a : String × Option String) : Attendee :=
  { email := a.1, cn := nonEmpty a.2, partstat := some .needsAction
    role := some "REQ-PARTICIPANT", scheduleAgent := some "CLIENT" }

/-- SOURCE: calendar/ical.py:805-916, `build_new_event` -/
def buildNewEvent (uid : String) (r : NewEvent) : Except EditError Calendar := do
  let times ← newTimes P zones r
  let rrule ← editedRrule P [] r.rrule
  let organizer ← newOrganizer r
  let event : Component :=
    { uid := uid
      summary := some r.summary
      location := nonEmpty r.location
      description := nonEmpty r.description
      status := none
      sequence := some 0
      organizer := organizer
      attendees := r.attendees.map newAttendee
      timing :=
        { dtstart := some times.1, dtend := some times.2, duration := none, rrule := rrule
          rdate := [], exdate := [] }
      recurrenceId := none
      alarms := r.reminders.map fun reminder => .display (some reminder)
      transp := r.transparency }
  return { method := none, vevents := [event] }

end

end MailVerdict.Model.NewEvents
