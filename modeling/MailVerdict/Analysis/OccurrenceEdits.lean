import MailVerdict.Analysis.IcalBodies

/-!
# Touching one occurrence of a series

`edit_occurrence`, `mark_cancelled` and `replace_exception_partstat_or_add` all write to
the exception of one occurrence, cloning it from the master where none is stored. The
other occurrences are shown as they were. The named one is shown as the written
component, and a clone carries the master's own DTSTART and DTEND, which are those of
the first occurrence: `touching_moves_nothing_iff` says exactly when the named
occurrence stays where it was.
-/

namespace MailVerdict.Analysis.OccurrenceEdits

open MailVerdict.Computation Failing Model.Ical Analysis.IcalBodies

/-- The three operations on one occurrence, with what each was given. -/
inductive OccurrenceOp
  | edit (f : FieldOverrides) (bumpSequence : Bool)
  | cancel (bumpSequence : Bool)
  | reply (email : String) (partstat : Partstat)

namespace OccurrenceOp

variable (P : Platform)

def run (cal : Calendar) (id : RecurrenceId) : OccurrenceOp → Except EditError Calendar
  | edit f bump => editOccurrence P cal id f bump
  | cancel bump => markCancelled P cal (some id) bump
  | reply email partstat => replaceExceptionPartstatOrAdd P cal email partstat id

/-- The change the operation makes to the component it is handed. -/
def change : OccurrenceOp → Component → Except EditError Component
  | edit f bump => fun c => applyFieldOverrides P c { f with rrule := none } bump
  | cancel bump => fun c => .ok (c.cancelled bump)
  | reply email partstat => fun c => .ok (c.answered P email partstat)

def dtstart : OccurrenceOp → Option RequestTime
  | edit f _ => f.dtstart
  | _ => none

def dtend : OccurrenceOp → Option RequestTime
  | edit f _ => f.dtend
  | _ => none

def allDay : OccurrenceOp → Option Bool
  | edit f _ => f.allDay
  | _ => none

def startOf (op : OccurrenceOp) (c : Component) : Option ICalTime :=
  match editedTime P op.allDay c.timing.dtstart c.timing.dtstart op.dtstart with
  | .ok s => s
  | .error _ => none

def untimed (e : ParsedEvent) : ParsedEvent :=
  { e with dtstart := 0, dtend := 0, tz := none, allDay := false }

/-- The fields of an occurrence after the operation, its times apart: those it was given,
and the others as they were. -/
def overlay (e : ParsedEvent) : OccurrenceOp → ParsedEvent
  | edit f bump =>
    { e with
      summary := f.summary.getD e.summary
      location := (f.location.map fun s => nonEmpty (some s)).getD e.location
      description := (f.description.map fun s => nonEmpty (some s)).getD e.description
      reminders := f.reminders.getD e.reminders
      transparency := f.transparency.getD e.transparency
      sequence := e.sequence + if bump then 1 else 0 }
  | cancel bump =>
    { e with status := .cancelled, sequence := e.sequence + if bump then 1 else 0 }
  | reply email partstat => { e with attendees := withPartstat P email partstat e.attendees }

/-- The occurrence is unchanged except for the fields the operation was given. -/
structure Kept (op : OccurrenceOp) (before after : ParsedEvent) : Prop where
  fields : untimed after = op.overlay P (untimed before)
  dtstart : op.dtstart = none →
    after.dtstart = before.dtstart ∧ after.tz = before.tz ∧ after.allDay = before.allDay
  dtend : op.dtend = none → after.dtend = before.dtend

/-- The times the written component has where the operation was given none are those of
the occurrence. A stored exception has them but for the end of one without a DTEND whose
start is moved; a clone has the master's. -/
structure TimesStand (op : OccurrenceOp) (c : Component) (before : ParsedEvent) : Prop where
  dtstart : op.dtstart = none → ∃ s, c.timing.dtstart = some s ∧
    s.toDatetime = before.dtstart ∧ s.zone = before.tz ∧ s.isDate = before.allDay
  dtend : op.dtend = none → ∀ s, op.startOf P c = some s →
    (c.timing.endValue P s).toDatetime = before.dtend

/-- The component names the occurrence still under its new DTSTART: its RECURRENCE-ID
carries a zone, or is a date, or the zone it is resolved against stays. -/
def IdStays (op : OccurrenceOp) (c : Component) : Prop :=
  ({ c with timing := { c.timing with dtstart := op.startOf P c } } : Component).recurrenceIdValue P
    = c.recurrenceIdValue P

end OccurrenceOp

variable {P : Platform} {cal cal' : Calendar} {id : RecurrenceId} {c c' m : Component}
  {op : OccurrenceOp}

theorem run_eq : op.run P cal id = cal.onException P id (op.change P) := by
  cases op with
  | edit f bump => rfl
  | cancel bump => rfl
  | reply email partstat => rfl

/-! ### What the change does to its component -/

theorem bumped_eq (bump : Bool) :
    c.bumped bump = { c with sequence := (c.bumped bump).sequence } := by
  cases bump with
  | true => rfl
  | false => rfl

theorem applyFieldOverrides_ok {f : FieldOverrides} {bump : Bool}
    (h : applyFieldOverrides P c f bump = .ok c') :
    ∃ dtstart dtend rrule,
      editedTime P f.allDay c.timing.dtstart c.timing.dtstart f.dtstart = .ok dtstart ∧
      editedTime P f.allDay c.timing.dtend dtstart f.dtend = .ok dtend ∧
      editedRrule P c.timing.rrule f.rrule = .ok rrule ∧
      c' = Component.bumped
        { c with
          summary := f.summary.or c.summary
          timing := { c.timing with dtstart := dtstart, dtend := dtend, rrule := rrule }
          location := f.location.or c.location
          description := f.description.or c.description
          alarms := replaceDisplayAlarms c.alarms f.reminders
          transp := f.transparency.or c.transp } bump := by
  obtain ⟨dtstart, hstart, h⟩ := bind_ok h
  obtain ⟨dtend, hend, h⟩ := bind_ok h
  obtain ⟨-, -, h⟩ := bind_ok h
  obtain ⟨rrule, hrule, h⟩ := bind_ok h
  cases h
  exact ⟨dtstart, dtend, rrule, hstart, hend, hrule, rfl⟩

theorem change_ok (h : op.change P c = .ok c') :
    c'.recurrenceId = c.recurrenceId ∧ c'.timing.dtstart = op.startOf P c ∧
      c'.timing.duration = c.timing.duration ∧
      (op.dtend = none → c'.timing.dtend = c.timing.dtend) ∧
      (op.dtstart = none → c'.timing.dtstart = c.timing.dtstart) ∧
      (op.dtstart ≠ none → c'.timing.dtstart ≠ none) := by
  cases op with
  | edit f bump =>
    obtain ⟨dtstart, dtend, rrule, hstart, hend, -, rfl⟩ := applyFieldOverrides_ok h
    have hs : OccurrenceOp.startOf P (.edit f bump) c = dtstart := by
      unfold OccurrenceOp.startOf
      have hstart' : editedTime P (OccurrenceOp.edit f bump).allDay c.timing.dtstart
          c.timing.dtstart (OccurrenceOp.edit f bump).dtstart = .ok dtstart := hstart
      rw [hstart']
    rw [bumped_eq]
    refine ⟨rfl, hs.symm, rfl, ?_, ?_, ?_⟩
    · intro hnone
      have hf : f.dtend = none := hnone
      simp only [hf] at hend
      cases hend
      rfl
    · intro hnone
      have hf : f.dtstart = none := hnone
      simp only [hf] at hstart
      cases hstart
      rfl
    · intro hsome
      have hf : f.dtstart ≠ none := hsome
      show dtstart ≠ none
      obtain ⟨v, hv⟩ := Option.ne_none_iff_exists'.1 hf
      simp only [hv, editedTime] at hstart
      cases ho : overrideTime P f.allDay c.timing.dtstart c.timing.dtstart v with
      | error e =>
        rw [ho] at hstart
        cases hstart
      | ok t =>
        rw [ho] at hstart
        cases hstart
        exact Option.some_ne_none t
  | cancel bump =>
    cases h
    unfold Component.cancelled
    rw [bumped_eq]
    exact ⟨rfl, rfl, rfl, fun _ => rfl, fun _ => rfl, fun h => absurd rfl h⟩
  | reply email partstat =>
    cases h
    exact ⟨rfl, rfl, rfl, fun _ => rfl, fun _ => rfl, fun h => absurd rfl h⟩

def contents (c : Component) : ParsedEvent :=
  { uid := c.uid, summary := c.summary.getD "", dtstart := 0, dtend := 0, tz := none,
    allDay := false, location := nonEmpty c.location, description := nonEmpty c.description,
    status := c.status.getD .confirmed, sequence := c.sequenceValue, organizer := c.organizer,
    attendees := c.attendees, reminders := parseReminders c.alarms,
    transparency := c.transp.getD .opaqueTime }

theorem parseComponent_of_dtstart {s : ICalTime} (h : c.timing.dtstart = some s) :
    ∃ e, parseComponent P c = some e := by
  unfold parseComponent
  rw [h]
  exact ⟨_, rfl⟩

theorem parseComponent_eq {e : ParsedEvent} :
    parseComponent P c = some e ↔ ∃ s, c.timing.dtstart = some s ∧
      e.dtstart = s.toDatetime ∧ e.tz = s.zone ∧ e.allDay = s.isDate ∧
      e.dtend = (c.timing.endValue P s).toDatetime ∧
      OccurrenceOp.untimed e = contents c := by
  unfold parseComponent
  cases hs : c.timing.dtstart with
  | none => simp
  | some s =>
    simp only [Option.map_some, Option.some.injEq]
    constructor
    · rintro rfl
      exact ⟨s, rfl, rfl, rfl, rfl, rfl, rfl⟩
    · rintro ⟨s', rfl, h1, h2, h3, h4, h5⟩
      obtain ⟨uid, summary, dtstart, dtend, tz, allDay, location, description, status, sequence,
        organizer, attendees, reminders, transparency⟩ := e
      simp only [OccurrenceOp.untimed, contents, ParsedEvent.mk.injEq] at h1 h2 h3 h4 h5 ⊢
      simp only [h1, h2, h3, h4, h5, and_self]

theorem parseReminders_replace (alarms : List Alarm) (reminders : Option (List Reminder)) :
    parseReminders (replaceDisplayAlarms alarms reminders)
      = reminders.getD (parseReminders alarms) := by
  cases reminders with
  | none => rfl
  | some rs =>
    show parseReminders (_ ++ rs.map fun r => Alarm.display (some r)) = rs
    unfold parseReminders
    rw [List.filterMap_append, List.filterMap_map]
    have hothers : (alarms.filter fun a => !a.isDisplay).filterMap Alarm.reminder = [] := by
      rw [List.filterMap_eq_nil_iff]
      intro a ha
      cases a with
      | display t => simp [Alarm.isDisplay] at ha
      | other text => rfl
    rw [hothers, List.nil_append]
    exact List.filterMap_some

theorem bumped_sequenceValue (bump : Bool) :
    (c.bumped bump).sequenceValue = c.sequenceValue + if bump then 1 else 0 := by
  cases bump with
  | true => rfl
  | false => exact (Int.add_zero _).symm

theorem change_contents (h : op.change P c = .ok c') :
    contents c' = op.overlay P (contents c) := by
  cases op with
  | edit f bump =>
    obtain ⟨dtstart, dtend, rrule, -, -, -, rfl⟩ := applyFieldOverrides_ok h
    unfold contents OccurrenceOp.overlay
    rw [bumped_sequenceValue, bumped_eq]
    simp only [ParsedEvent.mk.injEq, true_and]
    refine ⟨?_, ?_, ?_, rfl, parseReminders_replace _ _, ?_⟩
    · cases f.summary <;> rfl
    · cases f.location <;> rfl
    · cases f.description <;> rfl
    · cases f.transparency <;> rfl
  | cancel bump =>
    cases h
    unfold contents OccurrenceOp.overlay Component.cancelled
    rw [bumped_sequenceValue, bumped_eq]
    rfl
  | reply email partstat =>
    cases h
    rfl

theorem untimed_shown (hmaster : cal.master = some m) {span : Span}
    (hgen : P.generate m.timing id = some span) (htarget : exceptionFor P cal id = some c)
    {before : ParsedEvent} (hbefore : cal.shownAt P id = some before) :
    OccurrenceOp.untimed before = contents c := by
  rcases exceptionFor_cases htarget with ho | ⟨ho, m', hm', rfl⟩
  · rw [shownAt_override ho] at hbefore
    obtain ⟨s, -, -, -, -, -, hrest⟩ := parseComponent_eq.1 hbefore
    exact hrest
  · rw [hmaster, Option.some.injEq] at hm'
    rw [shownAt_generated ho hmaster hgen] at hbefore
    obtain ⟨s, -, -, -, -, -, hrest⟩ := parseComponent_eq.1 hbefore
    rw [← hm']
    exact hrest

/-- An edit keeps all it does not name exactly when it lets the times stand. -/
theorem kept_iff (h : op.change P c = .ok c') {before : ParsedEvent}
    (hfields : OccurrenceOp.untimed before = contents c) :
    (∃ after, parseComponent P c' = some after ∧ op.Kept P before after) ↔
      op.TimesStand P c before := by
  obtain ⟨-, hstart, hduration, hdtend, hsame, hset⟩ := change_ok h
  have hend : op.dtend = none → ∀ s, c'.timing.endValue P s = c.timing.endValue P s := by
    intro hnone s
    unfold Timing.endValue
    rw [hdtend hnone, hduration]
  constructor
  · rintro ⟨after, hafter, hkept⟩
    obtain ⟨s, hs, h1, h2, h3, h4, -⟩ := parseComponent_eq.1 hafter
    refine ⟨fun hnone => ?_, fun hnone t ht => ?_⟩
    · obtain ⟨k1, k2, k3⟩ := hkept.dtstart hnone
      refine ⟨s, ?_, ?_, ?_, ?_⟩
      · rw [← hsame hnone, hs]
      · rw [← h1, k1]
      · rw [← h2, k2]
      · rw [← h3, k3]
    · rw [← hstart, hs, Option.some.injEq] at ht
      rw [← ht, ← hend hnone s, ← h4]
      exact hkept.dtend hnone
  · intro hstand
    have hsome : c'.timing.dtstart ≠ none := by
      by_cases hnone : op.dtstart = none
      · obtain ⟨s, hs, -⟩ := hstand.dtstart hnone
        rw [hsame hnone, hs]
        exact Option.some_ne_none s
      · exact hset hnone
    obtain ⟨s, hs⟩ := Option.ne_none_iff_exists'.1 hsome
    obtain ⟨after, hafter⟩ := parseComponent_of_dtstart (P := P) hs
    refine ⟨after, hafter, ?_⟩
    obtain ⟨t, ht, h1, h2, h3, h4, h5⟩ := parseComponent_eq.1 hafter
    have hst : s = t := Option.some.inj (hs.symm.trans ht)
    subst hst
    refine ⟨?_, fun hnone => ?_, fun hnone => ?_⟩
    · rw [hfields, ← change_contents h]
      exact h5
    · obtain ⟨u, hu, k1, k2, k3⟩ := hstand.dtstart hnone
      rw [← hsame hnone, hs, Option.some.injEq] at hu
      subst hu
      exact ⟨h1.trans k1, h2.trans k2, h3.trans k3⟩
    · rw [h4, hend hnone s]
      exact hstand.dtend hnone s (by rw [← hstart, hs])

theorem change_names (hnormal : ∀ s, id ≠ .localTime s)
    (hstays : ∀ c, cal.override P id = some c → op.IdStays P c)
    (htarget : exceptionFor P cal id = some c) (h : op.change P c = .ok c') :
    c'.names P id = true := by
  obtain ⟨hrid, hstart, -⟩ := change_ok h
  have hvalue : c'.recurrenceIdValue P =
      ({ c with timing := { c.timing with dtstart := op.startOf P c } } :
        Component).recurrenceIdValue P := by
    unfold Component.recurrenceIdValue
    rw [hrid, hstart]
  rw [names_iff, hvalue]
  rcases exceptionFor_cases htarget with ho | ⟨-, m, -, rfl⟩
  · rw [hstays c ho]
    exact names_iff.1 (override_names ho)
  · cases id with
    | day d => rfl
    | instant s => rfl
    | localTime s => exact absurd rfl (hnormal s)

/-- **Touching one occurrence moves nothing, exactly when its times stand**: all is shown as
before, but for the fields of the one touched that were given, if and only if the component
written (the stored exception, else the clone of the master) already has the occurrence's own
times wherever none were given. -/
theorem touching_moves_nothing_iff {span : Span} {before : ParsedEvent}
    (hmaster : cal.master = some m) (hgen : P.generate m.timing id = some span)
    (hbefore : cal.shownAt P id = some before)
    (hstays : ∀ c, cal.override P id = some c → op.IdStays P c)
    (hrun : op.run P cal id = .ok cal') :
    ((∀ other, other ≠ id → cal'.shownAt P other = cal.shownAt P other) ∧
        ∃ after, cal'.shownAt P id = some after ∧ op.Kept P before after) ↔
      ∀ c, exceptionFor P cal id = some c → op.TimesStand P c before := by
  rw [run_eq] at hrun
  have hnames : ∀ c c', exceptionFor P cal id = some c → op.change P c = .ok c' →
      c'.names P id = true :=
    fun c c' htarget h => change_names (generated_normal hgen) hstays htarget h
  obtain ⟨c, c', htarget, hchange, hover⟩ := override_onException hnames hrun
  have hkept := kept_iff hchange (untimed_shown hmaster hgen htarget hbefore)
  rw [shownAt_override hover, hkept]
  constructor
  · rintro ⟨-, hstand⟩ d hd
    rw [htarget, Option.some.injEq] at hd
    exact hd ▸ hstand
  · intro hstand
    exact ⟨fun other hne => shownAt_onException_of_ne hnames hrun hne, hstand c htarget⟩

/-! ### A daily series of three -/

/-- Three days of one hour each, the first at 09:00 UTC on the day of the epoch. -/
def standup : Component :=
  { uid := "standup", summary := some "Standup", location := none, description := none,
    status := none, sequence := some 0, organizer := none, attendees := [],
    timing :=
      { dtstart := some (.timed 32400 (some "UTC")), dtend := some (.timed 36000 (some "UTC")),
        duration := none, rrule := [threeDays], rdate := [], exdate := [] },
    recurrenceId := none, alarms := [], transp := none }

def standups : Calendar := { method := none, vevents := [standup] }

def retitle : OccurrenceOp := .edit { summary := some "Planning" } true

/-- What is shown of the occurrence at an instant, before anything is edited. -/
def standupAt (start : Instant) : ParsedEvent :=
  { uid := "standup", summary := "Standup", dtstart := start, dtend := start + 3600,
    tz := some "UTC", allDay := false, location := none, description := none,
    status := .confirmed, sequence := 0, organizer := none, attendees := [], reminders := [],
    transparency := .opaqueTime }

/-- The series with its occurrence at `start` given a title of its own. -/
def retitled (start : Instant) : Calendar :=
  { method := none
    vevents := [standup,
      { standup with
        summary := some "Planning"
        sequence := some 1
        timing := { standup.timing with rrule := [] }
        recurrenceId := some (.timed start (some "UTC")) }] }

/-- Giving the first occurrence a title changes its title only. -/
theorem retitled_first_occurrence_stays :
    (∀ other, other ≠ RecurrenceId.instant 32400 →
        (retitled 32400).shownAt utcPlatform other = standups.shownAt utcPlatform other) ∧
      ∃ after, (retitled 32400).shownAt utcPlatform (.instant 32400) = some after ∧
        retitle.Kept utcPlatform (standupAt 32400) after := by
  have hgen : utcPlatform.generate standup.timing (.instant 32400)
      = some ⟨.timed 32400 (some "UTC"), .timed 36000 (some "UTC")⟩ := rfl
  have hnone : ∀ c, standups.override utcPlatform (.instant 32400) = some c →
      retitle.IdStays utcPlatform c := by
    intro c hc
    cases hc
  refine (touching_moves_nothing_iff rfl hgen rfl hnone rfl).2 fun c hc => ?_
  cases hc
  refine ⟨fun _ => ⟨.timed 32400 (some "UTC"), rfl, rfl, rfl, rfl⟩, fun _ s hs => ?_⟩
  cases hs
  rfl

/-- Giving the second occurrence a title moves it onto the first day. -/
theorem retitled_second_occurrence_moves :
    retitle.run utcPlatform standups (.instant 118800) = .ok (retitled 118800) ∧
      standups.shownAt utcPlatform (.instant 118800) = some (standupAt 118800) ∧
      (retitled 118800).shownAt utcPlatform (.instant 118800)
        = some { standupAt 32400 with summary := "Planning", sequence := 1 } ∧
      ¬ ∃ after, (retitled 118800).shownAt utcPlatform (.instant 118800) = some after ∧
        retitle.Kept utcPlatform (standupAt 118800) after := by
  refine ⟨rfl, rfl, rfl, ?_⟩
  rintro ⟨after, hafter, hkept⟩
  cases hafter
  exact absurd (hkept.dtstart rfl).1 (by decide)

end MailVerdict.Analysis.OccurrenceEdits
