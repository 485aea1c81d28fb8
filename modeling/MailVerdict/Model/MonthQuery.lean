import Mathlib.Data.List.Sort
import MailVerdict.Model.Ical

/-!
# The month query

`list_in_collections` chooses the calendar objects of a month by three columns, PostIMAP's
parse of each object's master; `expand_instances` then works out which occurrences the
month really has. An object the query leaves out is not expanded.

Times of the columns and of a window are microseconds since the epoch. The columns hold the
start and the explicit end of the master, a date as midnight UTC, and whether it recurs; all
are `NULL` while a write is pending. What recurring-ical-events makes of a body is the
parameter `Recurring`.
-/

namespace MailVerdict.Model.MonthQuery

open Model.Ical

abbrev Uuid := ℕ

def ICalTime.micros (t : ICalTime) : ℤ := t.toDatetime * 1000000

/-- What `_parse_month` returns: the start, inclusive, and the end, exclusive.
SOURCE: api/calendar_events.py:104-142 -/
structure Window where
  start : ℤ
  stop : ℤ
  ordered : start < stop

/-! ## The query -/

structure Columns where
  dtstart : Option ℤ
  dtend : Option ℤ
  isRecurring : Option Bool

/-- RRULE or RDATE. SOURCE: calendar/ical.py:532 -/
def Timing.recurs (t : Timing) : Bool := !t.rrule.isEmpty || !t.rdate.isEmpty

def Columns.parse (m : Component) : Columns where
  dtstart := m.timing.dtstart.map ICalTime.micros
  dtend := m.timing.dtend.map ICalTime.micros
  isRecurring := some (Timing.recurs m.timing)

def Columns.unparsed : Columns := ⟨none, none, none⟩

structure DavObject where
  collectionId : Uuid
  deleted : Bool
  pending : Bool
  data : Calendar

def DavObject.columns (o : DavObject) : Columns :=
  if o.pending then .unparsed
  else match o.data.master with
    | some m => .parse m
    | none => .unparsed

/-- The disjunction of the query, which keeps a row where one of the three is true.
SOURCE: calendar/repository.py:270-279 -/
def Columns.selected (c : Columns) (w : Window) : Bool :=
  (c.isRecurring == some true && c.dtstart.any fun s => decide (s < w.stop)) ||
    c.dtstart.isNone ||
    (c.dtstart.any fun s => decide (s < w.stop)) &&
      (c.dtend.or c.dtstart).any fun e => decide (w.start ≤ e)

/-- SOURCE: calendar/repository.py:227-282 -/
def listInCollections (rows : List DavObject) (collectionIds : List Uuid)
    (window : Option Window) : List DavObject :=
  if collectionIds.isEmpty then []
  else rows.filter fun o => collectionIds.contains o.collectionId && !o.deleted &&
    window.all o.columns.selected

/-! ## The expansion -/

/-- `recurring_ical_events.of(cal).between(start, stop)`, or what it raises. -/
structure Recurring where
  between : Calendar → ℤ → ℤ → Except String (List Component)

inductive ExpansionError
  | tooDense
  | tooManyOccurrences
  | noDtstart
  | raised (text : String)

def maxExpandedOccurrences : ℕ := 3000

/-- A rule whose COUNT bounds the series. SOURCE: calendar/ical.py:155-159 -/
def RRule.countExempt (r : RRule) : Bool :=
  ((r.part "COUNT").head?.bind String.toInt?).any fun n => decide (n ≤ (maxExpandedOccurrences : ℤ))

structure ExpansionQuery where
  vevents : List Component
  isRecurring : Bool
  calendar : Calendar

/-- SOURCE: calendar/ical.py:609-632 -/
def buildExpansionQuery (data : Calendar) : Except ExpansionError ExpansionQuery :=
  if data.vevents.any fun c => c.timing.rrule.any fun r => !RRule.countExempt r && r.tooDense then
    .error .tooDense
  else
    .ok { vevents := data.vevents
          isRecurring := data.vevents.any fun c => Timing.recurs c.timing
          calendar := data }

/-- SOURCE: calendar/ical.py:94-108 -/
def occurrenceIdentity (o : Component) : String × Option RecurrenceId × Option RecurrenceId :=
  (o.uid, o.timing.dtstart.map stampedId, o.recurrenceId.map stampedId)

/-- `setdefault` under the identity of each. -/
def collect (occurrences : List Component) : List Component :=
  occurrences.foldl (fun collected o =>
    if collected.any fun c => decide (occurrenceIdentity c = occurrenceIdentity o) then collected
    else collected ++ [o]) []

/-- SOURCE: calendar/ical.py:42-91 -/
def boundedBetween (R : Recurring) (cal : Calendar) (w : Window) :
    Except ExpansionError (List Component) :=
  let queryEnd := w.stop - 1
  if queryEnd < w.start then .ok []
  else match R.between cal w.start queryEnd with
    | .error text => .error (.raised text)
    | .ok occurrences =>
      if maxExpandedOccurrences < (collect occurrences).length then .error .tooManyOccurrences
      else .ok (collect occurrences)

def ExpansionQuery.occurrences (eq : ExpansionQuery) (R : Recurring) (w : Window) :
    Except ExpansionError (List Component) :=
  if eq.isRecurring then boundedBetween R eq.calendar w
  else match R.between eq.calendar w.start w.stop with
    | .error text => .error (.raised text)
    | .ok occurrences => .ok occurrences

/-- SOURCE: calendar/ical.py:635-689 -/
def expandFromQuery (P : Platform) (R : Recurring) (eq : ExpansionQuery) (w : Window) :
    Except ExpansionError (List ParsedEvent) :=
  (eq.occurrences R w).bind fun occurrences =>
    if occurrences.all fun o => o.timing.dtstart.isSome then
      .ok ((occurrences.filterMap (parseComponent P)).insertionSort fun a b => a.dtstart ≤ b.dtstart)
    else .error .noDtstart

/-- SOURCE: calendar/ical.py:692-716 -/
def expandInstances (P : Platform) (R : Recurring) (data : Calendar) (w : Window) :
    Except ExpansionError (List ParsedEvent) :=
  (buildExpansionQuery data).bind fun eq => expandFromQuery P R eq w

/-! ## What the library documents -/

/-- The occurrence that a stored component with a RECURRENCE-ID is, at its own times. -/
def Component.placed (c : Component) (span : Span) : Component :=
  { c with
    timing :=
      { dtstart := some span.start, dtend := some span.stop, duration := none,
        rrule := [], rdate := [], exdate := [] } }

/-- The occurrences of a body: each stored component that overrides one, and each that the
master's rule, its RDATEs or its own DTSTART generate and none overrides. -/
inductive Occurs (P : Platform) (cal : Calendar) : Component → Prop
  | override {id : RecurrenceId} {c : Component} {start : ICalTime}
      (h : cal.override P id = some c) (hstart : c.timing.dtstart = some start) :
      Occurs P cal (Component.placed c ⟨start, c.timing.endValue P start⟩)
  | generated {id : RecurrenceId} {m : Component} {span : Span} (h : cal.override P id = none)
      (hmaster : cal.master = some m) (hspan : P.generate m.timing id = some span) :
      Occurs P cal (m.occurrence span)

/-- Whether an event is in a span: starts are inclusive and ends exclusive, of both; an
event or a span of no length is a point. -/
def spanContains (low high start stop : ℤ) : Bool :=
  if start = stop then
    if low = high then decide (start = low) else decide (low ≤ start ∧ start < high)
  else if low = high then decide (start ≤ low ∧ low < stop)
  else decide (start < high ∧ low < stop)

/-- An occurrence, once placed, has both times. -/
def Component.within (o : Component) (low high : ℤ) : Bool :=
  match o.timing.dtstart, o.timing.dtend with
  | some s, some e => spanContains low high (ICalTime.micros s) (ICalTime.micros e)
  | _, _ => false

/-- What recurring-ical-events documents, and RFC 5545: the query returns the occurrences
in the span; a component that does not recur is generated at its own times; a rule
generates nothing before DTSTART. -/
structure Documented (P : Platform) (R : Recurring) : Prop where
  between_iff : ∀ cal low high occurrences, R.between cal low high = .ok occurrences →
    ∀ o, o ∈ occurrences ↔ Occurs P cal o ∧ Component.within o low high = true
  single : ∀ t id span, Timing.recurs t = false → P.generate t id = some span →
    ∃ start, t.dtstart = some start ∧ stampedId start = id ∧ span = ⟨start, t.endValue P start⟩
  notBefore : ∀ t id span, P.generate t id = some span → ∃ start, t.dtstart = some start ∧
    (ICalTime.micros start ≤ ICalTime.micros span.start ∨ span.start ∈ t.rdate)

end MailVerdict.Model.MonthQuery
