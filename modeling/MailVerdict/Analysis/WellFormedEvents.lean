import MailVerdict.Analysis.OccurrenceEdits

/-!
# Well-formed events over every sequence of edits

A stored body is well formed when each of its components ends after it starts, in values of one
type, and each exception names an occurrence the master's start and rule generate. The checks of
the edits see some of this: a range is refused where both ends are of one type, before a new
event's times are cut to days. A step condition says what they leave open, for each call from its
arguments and the body it meets, and a run keeps every body well formed exactly when its steps
all meet it.
-/

namespace MailVerdict.Analysis.WellFormedEvents

open MailVerdict.Computation Failing Model.Ical Model.NewEvents
open Analysis.IcalBodies Analysis.OccurrenceEdits

section Specification

variable (P : Platform)

/-- A start, and where there is an end one of the same type that comes after it as stored, with no
duration beside it. -/
def WellTimed (t : Timing) : Prop :=
  ∃ s ∈ t.dtstart, ∀ e ∈ t.dtend,
    e.isDate = s.isDate ∧ notAfter P e s = some false ∧ t.duration = none

/-- What generates the occurrences: the start, the rule and the RDATEs, whatever the ends are and
whatever is excluded. -/
def seriesOf (t : Timing) : Timing := { t with dtend := none, duration := none, exdate := [] }

def Generated (cal : Calendar) (id : RecurrenceId) : Prop :=
  ∃ m ∈ cal.master, (P.generate (seriesOf m.timing) id).isSome = true

/-- The occurrence a component overrides, if any, is one the master generates. -/
def NamesGenerated (cal : Calendar) (c : Component) : Prop :=
  ∀ id ∈ c.recurrenceIdValue P, Generated P cal id

def WellFormed (cal : Calendar) : Prop :=
  (∀ c ∈ cal.vevents, WellTimed P c.timing) ∧ ∀ c ∈ cal.vevents, NamesGenerated P cal c

instance (t : Timing) : Decidable (WellTimed P t) :=
  inferInstanceAs (Decidable (∃ s ∈ t.dtstart, ∀ e ∈ t.dtend, _))

instance (cal : Calendar) (id : RecurrenceId) : Decidable (Generated P cal id) :=
  inferInstanceAs (Decidable (∃ m ∈ cal.master, _))

instance (cal : Calendar) (c : Component) : Decidable (NamesGenerated P cal c) :=
  inferInstanceAs (Decidable (∀ id ∈ c.recurrenceIdValue P, _))

instance (cal : Calendar) : Decidable (WellFormed P cal) := inferInstanceAs (Decidable (_ ∧ _))

/-! ### The calls -/

/-- A call on the stored bodies: a new event, or an edit of the body at a place. -/
inductive EventCall
  | buildNewEvent (uid : String) (r : NewEvent)
  | replaceMasterFields (k : ℕ) (f : FieldOverrides) (bumpSequence : Bool)
  | editOccurrence (k : ℕ) (id : RecurrenceId) (f : FieldOverrides) (bumpSequence : Bool)
  | mergeException (k : ℕ) (incoming : Calendar) (id : RecurrenceId)

def rewriteBody (bodies : List Calendar) (k : ℕ) (change : Calendar → Except EditError Calendar) :
    Option (List Calendar) :=
  bodies[k]?.bind fun body => (change body).toOption.map fun body' => bodies.set k body'

variable (zones : Zone → Bool)

def storedBodies : TransitionSystem (List Calendar) EventCall where
  init bodies := ∀ body ∈ bodies, WellFormed P body
  step bodies
    | .buildNewEvent uid r =>
      (buildNewEvent P zones uid r).toOption.map fun body => bodies ++ [body]
    | .replaceMasterFields k f bump =>
      rewriteBody bodies k fun body => replaceMasterFields P body f bump
    | .editOccurrence k id f bump =>
      rewriteBody bodies k fun body => editOccurrence P body id f bump
    | .mergeException k incoming id =>
      rewriteBody bodies k fun body => mergeException P body incoming id

/-! ### What the checks leave open -/

/-- A new event's end still comes after its start once both are written: a later day, where they
are cut to days, and a later wall clock, where the zone they are bound to moves one it skips. -/
def BuildFits (r : NewEvent) : Prop :=
  (∀ tz ∈ r.tz, P.wall tz (P.resolve tz (wallClock P r.dtstart)) <
    P.wall tz (P.resolve tz (wallClock P r.dtend))) ∧
  (r.tz = none → r.allDay = true → dayOf P r.dtstart < dayOf P r.dtend)

/-- No end is written beside a duration, and neither end alone is written as another type than
the one the start has. -/
def TimesFit (f : FieldOverrides) (t : Timing) : Prop :=
  (f.dtend = none ∨ t.duration = none) ∧
  ∀ s ∈ t.dtstart, ∀ b ∈ f.allDay, b = s.isDate ∨ (f.dtstart = none ∧ f.dtend = none) ∨
    (f.dtstart ≠ none ∧ (f.dtend ≠ none ∨ t.dtend = none))

def newStart (f : FieldOverrides) (s : ICalTime) : ICalTime :=
  match f.dtstart with
  | none => s
  | some v =>
    if f.allDay.getD s.isDate then .date (dayOf P v) else inExistingZone (some s) (some s) v

def newRules (f : FieldOverrides) (rules : List RRule) : List RRule :=
  match f.rrule with
  | none => rules
  | some text => if text = "" then [] else (P.parseRrule text).toList

def newSeries (f : FieldOverrides) (t : Timing) : Timing :=
  seriesOf { t with dtstart := t.dtstart.map (newStart P f), rrule := newRules P f t.rrule }

/-- The component with the start it asks for, under which a floating RECURRENCE-ID is read. -/
def restarted (f : FieldOverrides) (c : Component) : Component :=
  { c with timing := { c.timing with dtstart := c.timing.dtstart.map (newStart P f) } }

/-- An edit of the master fits its times, and the series it makes generates every occurrence an
exception overrides. -/
def ReplaceFits (f : FieldOverrides) (cal : Calendar) : Prop :=
  ∀ m ∈ cal.master, TimesFit f m.timing ∧
    ∀ c ∈ cal.vevents, ∀ id ∈ c.recurrenceIdValue P,
      (P.generate (newSeries P f m.timing) id).isSome = true

/-- An edit of an occurrence fits the times of its exception, stored or cloned, which names an
occurrence the series generates. -/
def EditFits (f : FieldOverrides) (id : RecurrenceId) (cal : Calendar) : Prop :=
  ∀ c ∈ exceptionFor P cal id, TimesFit f c.timing ∧ NamesGenerated P cal (restarted P f c)

/-- The component merged is well timed and names an occurrence the series generates, if any. -/
def MergeFits (incoming cal : Calendar) : Prop :=
  ∀ c ∈ incoming.vevents.head?, WellTimed P c.timing ∧ NamesGenerated P cal c

def CallFits (bodies : List Calendar) : EventCall → Prop
  | .buildNewEvent _ r => BuildFits P r
  | .replaceMasterFields k f _ => ∀ body ∈ bodies[k]?, ReplaceFits P f body
  | .editOccurrence k id f _ => ∀ body ∈ bodies[k]?, EditFits P f id body
  | .mergeException k incoming _ => ∀ body ∈ bodies[k]?, MergeFits P incoming body

instance (r : NewEvent) : Decidable (BuildFits P r) :=
  inferInstanceAs (Decidable ((∀ tz ∈ r.tz, _) ∧ _))

instance (f : FieldOverrides) (t : Timing) : Decidable (TimesFit f t) :=
  inferInstanceAs (Decidable (_ ∧ ∀ s ∈ t.dtstart, ∀ b ∈ f.allDay, _))

instance (f : FieldOverrides) (cal : Calendar) : Decidable (ReplaceFits P f cal) :=
  inferInstanceAs (Decidable (∀ m ∈ cal.master,
    TimesFit f m.timing ∧ ∀ c ∈ cal.vevents, ∀ id ∈ c.recurrenceIdValue P, _))

instance (f : FieldOverrides) (id : RecurrenceId) (cal : Calendar) :
    Decidable (EditFits P f id cal) :=
  inferInstanceAs (Decidable (∀ c ∈ exceptionFor P cal id, _))

instance (incoming cal : Calendar) : Decidable (MergeFits P incoming cal) :=
  inferInstanceAs (Decidable (∀ c ∈ incoming.vevents.head?, _))

instance decidableCallFits (bodies : List Calendar) (call : EventCall) :
    Decidable (CallFits P bodies call) := by
  cases call <;> unfold CallFits <;> infer_instance

end Specification

variable {P : Platform} {zones : Zone → Bool} {cal cal' : Calendar} {c c' m : Component}
  {id : RecurrenceId} {f : FieldOverrides} {bump : Bool} {s : ICalTime}

/-! ## The times of one component -/

theorem checkRange_given {given : Bool} {e : ICalTime} (hgiven : given = true)
    (h : checkRange P given (some s) (some e) = .ok ()) : notAfter P e s = some false := by
  subst hgiven
  cases hafter : notAfter P e s with
  | none =>
    simp only [checkRange, hafter] at h
    cases h
  | some b =>
    cases b with
    | true =>
      simp only [checkRange, hafter] at h
      cases h
    | false => rfl

theorem editedTime_start :
    editedTime P f.allDay (some s) (some s) f.dtstart = .ok (some (newStart P f s)) := by
  unfold newStart
  cases f.dtstart with
  | none => rfl
  | some v =>
    cases f.allDay with
    | none =>
      cases s with
      | date d => rfl
      | timed u z => rfl
    | some b =>
      cases b with
      | true => rfl
      | false => rfl

theorem isDate_inExistingZone (current dtstart : Option ICalTime) (v : RequestTime) :
    (inExistingZone current dtstart v).isDate = false := by
  unfold inExistingZone
  split
  · rfl
  · rfl

theorem isDate_newStart : (newStart P f s).isDate =
    if f.dtstart = none then s.isDate else f.allDay.getD s.isDate := by
  unfold newStart
  cases f.dtstart with
  | none => rfl
  | some v =>
    rw [if_neg (Option.some_ne_none v)]
    cases hday : f.allDay.getD s.isDate with
    | true => rfl
    | false => exact isDate_inExistingZone _ _ v

theorem editedTime_end {current e : Option ICalTime} {v : RequestTime}
    (h : editedTime P f.allDay current (some s) (some v) = .ok e) :
    ∃ stop, e = some stop ∧ stop.isDate = f.allDay.getD s.isDate := by
  unfold editedTime overrideTime at h
  cases hday : f.allDay.getD s.isDate with
  | true =>
    have hask : isAllDay f.allDay (some s) = .ok true := by
      rw [← hday]
      cases f.allDay <;> rfl
    rw [hask] at h
    cases h
    exact ⟨_, rfl, rfl⟩
  | false =>
    have hask : isAllDay f.allDay (some s) = .ok false := by
      rw [← hday]
      cases f.allDay <;> rfl
    rw [hask] at h
    cases h
    exact ⟨_, rfl, isDate_inExistingZone _ _ v⟩

theorem editedRrule_eq {rules rules' : List RRule} (h : editedRrule P rules f.rrule = .ok rules') :
    rules' = newRules P f rules := by
  unfold newRules
  cases htext : f.rrule with
  | none =>
    rw [htext] at h
    cases h
    rfl
  | some text =>
    rw [htext] at h
    unfold editedRrule at h
    by_cases hempty : text = ""
    · simp only [if_pos hempty] at h ⊢
      cases h
      rfl
    · simp only [if_neg hempty] at h ⊢
      cases hparse : P.parseRrule text with
      | none =>
        simp only [hparse] at h
        cases h
      | some r =>
        simp only [hparse] at h
        split at h
        · cases h
        · cases h
          rfl

theorem edited_timing (hstart : c.timing.dtstart = some s)
    (h : applyFieldOverrides P c f bump = .ok c') :
    c'.recurrenceId = c.recurrenceId ∧ ∃ e,
      c'.timing = { c.timing with
        dtstart := some (newStart P f s), dtend := e, rrule := newRules P f c.timing.rrule } ∧
      editedTime P f.allDay c.timing.dtend (some (newStart P f s)) f.dtend = .ok e ∧
      checkRange P (f.dtstart.isSome || f.dtend.isSome) (some (newStart P f s)) e = .ok () := by
  unfold applyFieldOverrides at h
  rw [hstart] at h
  obtain ⟨dtstart, hs, h⟩ := bind_ok h
  rw [editedTime_start] at hs
  cases hs
  obtain ⟨e, he, h⟩ := bind_ok h
  obtain ⟨_, hrange, h⟩ := bind_ok h
  obtain ⟨rules, hrules, h⟩ := bind_ok h
  cases h
  rw [bumped_eq]
  refine ⟨rfl, e, ?_, he, hrange⟩
  rw [← editedRrule_eq hrules]

theorem wellTimed_checked_iff {t : Timing} {given : Bool} (hgiven : given = true)
    (hstart : t.dtstart = some s) (hrange : checkRange P given (some s) t.dtend = .ok ()) :
    WellTimed P t ↔ ∀ e ∈ t.dtend, e.isDate = s.isDate ∧ t.duration = none := by
  constructor
  · rintro ⟨s', hs', hend⟩ e he
    rw [hstart, Option.mem_some_iff] at hs'
    subst hs'
    exact ⟨(hend e he).1, (hend e he).2.2⟩
  · intro hend
    refine ⟨s, hstart, ?_⟩
    intro e he
    rw [Option.mem_def.1 he] at hrange
    exact ⟨(hend e he).1, checkRange_given hgiven hrange, (hend e he).2⟩

theorem timesFit_iff {t : Timing} (hstart : s ∈ t.dtstart) :
    TimesFit f t ↔ (f.dtend = none ∨ t.duration = none) ∧
      ∀ b ∈ f.allDay, b = s.isDate ∨ (f.dtstart = none ∧ f.dtend = none) ∨
        (f.dtstart ≠ none ∧ (f.dtend ≠ none ∨ t.dtend = none)) := by
  refine and_congr_right fun _ => ⟨fun hall => hall s hstart, fun hall s' hs' => ?_⟩
  rw [Option.mem_unique hs' hstart]
  exact hall

/-- An edit that gives neither end leaves the times; one that gives an end leaves them well formed
exactly when they are of one type, with no duration beside the end. -/
theorem wellTimed_edited_iff (hwell : WellTimed P c.timing)
    (h : applyFieldOverrides P c f bump = .ok c') :
    WellTimed P c'.timing ↔ TimesFit f c.timing := by
  obtain ⟨s, hstart, hend⟩ := hwell
  obtain ⟨-, e, htiming, he, hrange⟩ := edited_timing hstart h
  have hday : (newStart P f s).isDate =
    if f.dtstart = none then s.isDate else f.allDay.getD s.isDate := isDate_newStart
  rw [timesFit_iff hstart]
  cases hdtend : f.dtend with
  | some v =>
    rw [hdtend] at he hrange
    obtain ⟨stop, rfl, hstop⟩ := editedTime_end he
    rw [wellTimed_checked_iff (Bool.or_true _) (by rw [htiming]) (by rw [htiming]; exact hrange),
      htiming]
    simp only [Option.mem_some_iff, forall_eq', hstop, hday]
    cases hallDay : f.allDay with
    | none => simp
    | some b =>
      by_cases hgiven : f.dtstart = none
      · simp [hgiven, and_comm]
      · simp [hgiven, and_comm]
  | none =>
    rw [hdtend] at he hrange
    cases he
    cases hstop : c.timing.dtend with
    | none =>
      refine iff_of_true ⟨newStart P f s, by rw [htiming]; rfl, ?_⟩ ⟨Or.inl rfl, ?_⟩
      · intro e he
        rw [htiming, Option.mem_def, hstop] at he
        cases he
      · intro b _
        by_cases hgiven : f.dtstart = none
        · exact Or.inr (Or.inl ⟨hgiven, rfl⟩)
        · exact Or.inr (Or.inr ⟨hgiven, Or.inr rfl⟩)
    | some stop =>
      obtain ⟨htype, hafter, hduration⟩ := hend stop hstop
      cases hgiven : f.dtstart with
      | none =>
        have hsame : newStart P f s = s := by
          unfold newStart
          rw [hgiven]
        refine iff_of_true ⟨s, by rw [htiming, hsame]; rfl, ?_⟩
          ⟨Or.inl rfl, fun _ _ => Or.inr (Or.inl ⟨rfl, rfl⟩)⟩
        intro e he
        rw [htiming, Option.mem_def, hstop, Option.some.injEq] at he
        subst he
        rw [htiming]
        exact ⟨htype, hafter, hduration⟩
      | some v =>
        rw [hgiven] at hrange hday
        rw [if_neg (Option.some_ne_none v)] at hday
        rw [wellTimed_checked_iff (Bool.true_or _) (by rw [htiming])
          (by rw [htiming]; exact hrange), htiming]
        simp only [hstop, Option.mem_some_iff, forall_eq', htype, hday]
        cases f.allDay with
        | none => simp [hduration]
        | some b => simp [hduration, eq_comm]

/-! ## One body -/

theorem namesGenerated_of_master (h : c.recurrenceId = none) : NamesGenerated P cal c := by
  intro id hid
  rw [recurrenceIdValue_eq_none.2 h] at hid
  cases hid

theorem namesGenerated_congr (hmaster : cal'.master = cal.master)
    (hid : c'.recurrenceIdValue P = c.recurrenceIdValue P) :
    NamesGenerated P cal' c' ↔ NamesGenerated P cal c := by
  unfold NamesGenerated Generated
  rw [hmaster, hid]

theorem notAfter_dates (e s : Day) : notAfter P (.date e) (.date s) = some false ↔ s < e := by
  unfold notAfter
  simp only [Option.some.injEq, decide_eq_false_iff_not, Int.not_le]

theorem notAfter_bound (tz : Zone) (v w : RequestTime) :
    notAfter P (boundTo P tz v) (boundTo P tz w) = some false ↔
      P.wall tz (P.resolve tz (wallClock P w)) < P.wall tz (P.resolve tz (wallClock P v)) := by
  unfold notAfter boundTo
  simp only [if_true, Option.some.injEq, decide_eq_false_iff_not, Int.not_le]

theorem newTimes_fit_iff {r : NewEvent} {times : ICalTime × ICalTime}
    (h : newTimes P zones r = .ok times) :
    times.2.isDate = times.1.isDate ∧
      (notAfter P times.2 times.1 = some false ↔ BuildFits P r) := by
  unfold newTimes at h
  unfold BuildFits
  cases htz : r.tz with
  | some tz =>
    simp only [htz] at h
    split at h
    · cases h
    · split at h
      · cases h
      · split at h
        · cases h
        · cases h
          refine ⟨rfl, ?_⟩
          rw [notAfter_bound]
          simp
  | none =>
    simp only [htz] at h
    cases hafter : notAfter P (asGiven r.dtend) (asGiven r.dtstart) with
    | none =>
      simp only [hafter] at h
      cases h
    | some b =>
      cases b with
      | true =>
        simp only [hafter] at h
        cases h
      | false =>
        simp only [hafter] at h
        cases hday : r.allDay with
        | true =>
          rw [hday] at h
          cases h
          refine ⟨rfl, ?_⟩
          rw [if_pos rfl, notAfter_dates]
          simp
        | false =>
          rw [hday] at h
          cases h
          refine ⟨rfl, ?_⟩
          rw [if_neg Bool.false_ne_true]
          simp [hafter]

theorem wellFormed_built_iff {uid : String} {r : NewEvent}
    (h : buildNewEvent P zones uid r = .ok cal) : WellFormed P cal ↔ BuildFits P r := by
  obtain ⟨times, htimes, h⟩ := bind_ok h
  obtain ⟨rules, _, h⟩ := bind_ok h
  obtain ⟨organizer, _, h⟩ := bind_ok h
  cases h
  obtain ⟨htype, hfit⟩ := newTimes_fit_iff htimes
  rw [← hfit]
  unfold WellFormed
  simp only [List.forall_mem_singleton]
  constructor
  · rintro ⟨⟨s, hs, hend⟩, -⟩
    cases hs
    exact (hend _ rfl).2.1
  · intro hafter
    refine ⟨⟨times.1, rfl, ?_⟩, namesGenerated_of_master rfl⟩
    intro e he
    cases he
    exact ⟨htype, hafter, rfl⟩

/-- A replaced master stays well formed exactly when the fields fit it. -/
theorem wellFormed_replaced_iff (hwell : WellFormed P cal)
    (h : replaceMasterFields P cal f bump = .ok cal') :
    WellFormed P cal' ↔ ReplaceFits P f cal := by
  obtain ⟨htimed, hnames⟩ := hwell
  obtain ⟨m, m', hm, hm', rfl⟩ := onMaster_cases h
  have hmem : m ∈ cal.vevents := master_mem hm
  obtain ⟨s, hstart, hend⟩ := htimed m hmem
  obtain ⟨hid, e, htiming, -, -⟩ := edited_timing hstart hm'
  have hnone : m.recurrenceId = none := master_recurrenceId hm
  have hnone' : m'.recurrenceId = none := hid.trans hnone
  have hmaster : (cal.setFirst (fun c => c.recurrenceId.isNone) m').master = some m' :=
    find?_replaceFirst hm (Option.isNone_iff_eq_none.2 hnone')
  have hseries : seriesOf m'.timing = newSeries P f m.timing := by
    unfold newSeries seriesOf
    rw [htiming, Option.mem_def.1 hstart]
    rfl
  have hgenerated : ∀ id, Generated P (cal.setFirst (fun c => c.recurrenceId.isNone) m') id ↔
      (P.generate (newSeries P f m.timing) id).isSome = true := by
    intro id
    unfold Generated
    rw [hmaster, ← hseries]
    simp only [Option.mem_some_iff, exists_eq_left']
  have hfit : ReplaceFits P f cal ↔ TimesFit f m.timing ∧
      ∀ c ∈ cal.vevents, ∀ id ∈ c.recurrenceIdValue P,
        (P.generate (newSeries P f m.timing) id).isSome = true := by
    unfold ReplaceFits
    rw [hm]
    simp only [Option.mem_some_iff, forall_eq']
  rw [hfit]
  refine and_congr ?_ ?_
  · refine (forall_replaceFirst_iff hm (htimed m hmem)).trans ?_
    rw [wellTimed_edited_iff (htimed m hmem) hm']
    exact and_iff_left htimed
  · refine (forall_replaceFirst_iff hm (namesGenerated_of_master hnone)).trans ?_
    rw [and_iff_right (namesGenerated_of_master hnone')]
    unfold NamesGenerated
    simp only [hgenerated]

theorem wellFormed_with_iff (hwell : WellFormed P cal) (hmaster : cal'.master = cal.master)
    (hmem : ∀ Q : Component → Prop, (∀ x ∈ cal.vevents, Q x) →
      ((∀ x ∈ cal'.vevents, Q x) ↔ Q c')) :
    WellFormed P cal' ↔ WellTimed P c'.timing ∧ NamesGenerated P cal c' := by
  obtain ⟨htimed, hnames⟩ := hwell
  have hsame : ∀ x, NamesGenerated P cal' x ↔ NamesGenerated P cal x :=
    fun x => namesGenerated_congr hmaster rfl
  unfold WellFormed
  rw [hmem _ htimed]
  simp only [hsame]
  rw [hmem _ hnames]

theorem restarted_id (hwell : WellTimed P c.timing)
    (h : applyFieldOverrides P c f bump = .ok c') :
    c'.recurrenceIdValue P = (restarted P f c).recurrenceIdValue P := by
  obtain ⟨s, hstart, -⟩ := hwell
  obtain ⟨hid, e, htiming, -, -⟩ := edited_timing hstart h
  unfold Component.recurrenceIdValue restarted
  rw [hid, htiming, Option.mem_def.1 hstart]
  rfl

theorem editFits_iff (htarget : exceptionFor P cal id = some c) (hwell : WellTimed P c.timing)
    (h : applyFieldOverrides P c { f with rrule := none } bump = .ok c') :
    WellTimed P c'.timing ∧ NamesGenerated P cal c' ↔ EditFits P f id cal := by
  have hid := restarted_id hwell h
  have hnames : NamesGenerated P cal c' ↔ NamesGenerated P cal (restarted P f c) :=
    namesGenerated_congr rfl hid
  have htimes := wellTimed_edited_iff hwell h
  have hfit : WellTimed P c'.timing ↔ TimesFit f c.timing := htimes
  unfold EditFits
  rw [htarget, hfit, hnames]
  simp only [Option.mem_some_iff, forall_eq']

theorem wellFormed_edited_iff (hwell : WellFormed P cal)
    (h : editOccurrence P cal id f bump = .ok cal') :
    WellFormed P cal' ↔ EditFits P f id cal := by
  rcases onException_cases h with ⟨c, c', ho, hc', rfl⟩ | ⟨m, c', ho, hm, hc', rfl⟩
  · have hmem : c ∈ cal.vevents := override_mem ho
    have hsome : c.recurrenceId.isNone = false := recurrenceId_of_names (override_names ho)
    have hid : c'.recurrenceId = c.recurrenceId := by
      obtain ⟨s, hstart, -⟩ := hwell.1 c hmem
      exact (edited_timing hstart hc').1
    have hmaster : (cal.setFirst (Component.names P id) c').master = cal.master :=
      find?_replaceFirst_of_not ho hsome (by rw [hid]; exact hsome)
    rw [← editFits_iff (exceptionFor_stored ho) (hwell.1 c hmem) hc']
    refine wellFormed_with_iff hwell hmaster fun Q hold => ?_
    exact (forall_replaceFirst_iff ho (hold c hmem)).trans (and_iff_left hold)
  · have hclone : WellTimed P (m.clonedFor id).timing := hwell.1 m (master_mem hm)
    have hmaster : (Calendar.mk cal.method (cal.vevents ++ [c'])).master = cal.master := by
      unfold Calendar.master at hm ⊢
      rw [List.find?_append, hm, Option.some_or]
    rw [← editFits_iff (exceptionFor_cloned ho hm) hclone hc']
    refine wellFormed_with_iff hwell hmaster fun Q hold => ?_
    rw [List.forall_mem_append, List.forall_mem_singleton]
    exact and_iff_right hold

theorem vevents_of_no_master (hwell : WellFormed P cal) (hm : cal.master = none) :
    cal.vevents = [] := by
  refine List.eq_nil_iff_forall_not_mem.2 ?_
  intro c hc
  have hsome : ¬ c.recurrenceId.isNone = true := List.find?_eq_none.1 hm c hc
  cases hid : c.recurrenceIdValue P with
  | none =>
    rw [recurrenceIdValue_eq_none.1 hid] at hsome
    exact hsome rfl
  | some id =>
    obtain ⟨m, hmaster, -⟩ := hwell.2 c hc id hid
    rw [hm] at hmaster
    cases hmaster

theorem master_merged :
    (Calendar.mk cal.method
      ((cal.vevents.filter fun e => !Component.names P id e) ++ [c])).master =
        cal.master.or ([c].find? fun e => e.recurrenceId.isNone) := by
  have hkept : (fun e : Component =>
      decide ((!Component.names P id e) = true ∧ e.recurrenceId.isNone = true)) =
      fun e => e.recurrenceId.isNone := by
    funext e
    cases hnames : Component.names P id e with
    | true =>
      rw [recurrenceId_of_names hnames]
      rfl
    | false =>
      cases e.recurrenceId.isNone with
      | true => rfl
      | false => rfl
  unfold Calendar.master
  rw [List.find?_append, List.find?_filter, hkept]

theorem wellFormed_merged_iff {incoming : Calendar} (hwell : WellFormed P cal)
    (h : mergeException P cal incoming id = .ok cal') :
    WellFormed P cal' ↔ MergeFits P incoming cal := by
  unfold mergeException at h
  unfold MergeFits
  cases hin : incoming.vevents with
  | nil =>
    simp only [hin] at h
    cases h
  | cons c rest =>
    simp only [hin] at h
    cases h
    simp only [List.head?_cons, Option.mem_some_iff, forall_eq']
    cases hm : cal.master with
    | some m =>
      refine wellFormed_with_iff hwell ?_ fun Q hold => ?_
      · rw [master_merged, hm, Option.some_or]
      · rw [List.forall_mem_append, List.forall_mem_singleton]
        exact and_iff_right fun x hx => hold x (List.mem_of_mem_filter hx)
    | none =>
      unfold WellFormed
      simp only [vevents_of_no_master hwell hm, List.filter_nil, List.nil_append,
        List.forall_mem_singleton]
      refine and_congr_right fun _ => ?_
      cases hid : c.recurrenceId with
      | none => exact iff_of_true (namesGenerated_of_master hid) (namesGenerated_of_master hid)
      | some value =>
        refine namesGenerated_congr ?_ rfl
        rw [hm]
        unfold Calendar.master
        rw [List.find?_singleton, hid]
        rfl

/-! ## All the stored bodies -/

theorem toOption_eq_some {α : Type} {x : Except EditError α} {a : α} :
    x.toOption = some a ↔ x = .ok a := by
  cases x with
  | error e => exact iff_of_false (fun h => by cases h) (fun h => by cases h)
  | ok b => exact ⟨fun h => by cases h; rfl, fun h => by cases h; rfl⟩

theorem rewriteBody_iff {bodies bodies' : List Calendar} {k : ℕ}
    {change : Calendar → Except EditError Calendar} {Fit : Calendar → Prop}
    (hchange : ∀ body body', WellFormed P body → change body = .ok body' →
      (WellFormed P body' ↔ Fit body))
    (hall : ∀ body ∈ bodies, WellFormed P body) (h : rewriteBody bodies k change = some bodies') :
    (∀ body ∈ bodies', WellFormed P body) ↔ ∀ body ∈ bodies[k]?, Fit body := by
  obtain ⟨body, hbody, h⟩ := Option.bind_eq_some_iff.1 h
  obtain ⟨body', hbody', rfl⟩ := Option.map_eq_some_iff.1 h
  have hwell : WellFormed P body := hall body (List.mem_of_getElem? hbody)
  have hone := hchange body body' hwell (toOption_eq_some.1 hbody')
  have hlt : k < bodies.length := (List.getElem?_eq_some_iff.1 hbody).1
  rw [hbody]
  simp only [Option.mem_some_iff, forall_eq']
  rw [← hone]
  constructor
  · intro hset
    exact hset body' (List.mem_set hlt body')
  · intro hnew x hx
    rcases List.mem_or_eq_of_mem_set hx with hx | rfl
    · exact hall x hx
    · exact hnew

theorem step_iff {bodies bodies' : List Calendar} {call : EventCall}
    (hall : ∀ body ∈ bodies, WellFormed P body)
    (h : (storedBodies P zones).step bodies call = some bodies') :
    (∀ body ∈ bodies', WellFormed P body) ↔ CallFits P bodies call := by
  cases call with
  | buildNewEvent uid r =>
    obtain ⟨body, hbody, rfl⟩ := Option.map_eq_some_iff.1 h
    have hone : WellFormed P body ↔ BuildFits P r :=
      wellFormed_built_iff (toOption_eq_some.1 hbody)
    show _ ↔ BuildFits P r
    rw [List.forall_mem_append, List.forall_mem_singleton, ← hone]
    exact and_iff_right hall
  | replaceMasterFields k f bump =>
    exact rewriteBody_iff (fun _ _ => wellFormed_replaced_iff) hall h
  | editOccurrence k id f bump =>
    exact rewriteBody_iff (fun _ _ => wellFormed_edited_iff) hall h
  | mergeException k incoming id =>
    exact rewriteBody_iff (fun _ _ => wellFormed_merged_iff) hall h

/-- Over every sequence of accepted calls on well-formed bodies: every body of every state is well
formed exactly when every call fits the bodies it meets. -/
theorem stored_bodies_well_formed_iff (P : Platform) (zones : Zone → Bool)
    {bodies bodies' : List Calendar} (calls : List EventCall)
    (hstart : (storedBodies P zones).init bodies)
    (hrun : (storedBodies P zones).exec bodies calls = some bodies') :
    (∀ state ∈ (storedBodies P zones).trail bodies calls, ∀ body ∈ state, WellFormed P body) ↔
      (storedBodies P zones).execMeets (CallFits P) bodies calls = true :=
  TransitionSystem.trail_iff_execMeets (I := fun _ => True) (S := (storedBodies P zones).init)
    (fun _ _ _ _ _ => trivial) (fun _ _ _ _ hall hstep => step_iff hall hstep) calls trivial
    hstart hrun

theorem standups_well_formed : (storedBodies utcPlatform zones).init [standups] :=
  show ∀ body ∈ [standups], WellFormed utcPlatform body by decide

/-- One day of the series is renamed, the whole series too, and a new event is made. -/
def renamings : List EventCall :=
  [.editOccurrence 0 (.instant 118800) { summary := some "Planning" } true,
    .replaceMasterFields 0 { summary := some "Daily" } true,
    .buildNewEvent "lunch"
      { summary := "Lunch", dtstart := ⟨43200, some "UTC"⟩, dtend := ⟨46800, some "UTC"⟩ }]

theorem renamings_stay_well_formed :
    ((storedBodies utcPlatform fun _ => true).exec [standups] renamings).isSome = true ∧
      ∀ state ∈ (storedBodies utcPlatform fun _ => true).trail [standups] renamings,
        ∀ body ∈ state, WellFormed utcPlatform body := by
  refine ⟨by decide, ?_⟩
  exact (stored_bodies_well_formed_iff utcPlatform (fun _ => true) renamings
    standups_well_formed rfl).2 (by decide)

def allDayEnd : List EventCall :=
  [.replaceMasterFields 0 { allDay := some true, dtend := some ⟨86400, some "UTC"⟩ } true]

theorem allDayEnd_not_well_formed :
    (storedBodies utcPlatform fun _ => true).init [standups] ∧
      ((storedBodies utcPlatform fun _ => true).exec [standups] allDayEnd).isSome = true ∧
      ¬ ∀ state ∈ (storedBodies utcPlatform fun _ => true).trail [standups] allDayEnd,
        ∀ body ∈ state, WellFormed utcPlatform body := by
  refine ⟨standups_well_formed, ?_, ?_⟩
  · decide
  · decide

/-- A new event within one day, made all-day, would end on the day it starts. -/
example : ¬ BuildFits utcPlatform
    { summary := "Lunch", dtstart := ⟨43200, some "UTC"⟩, dtend := ⟨46800, some "UTC"⟩
      allDay := true } := by decide

/-- A series with an exception, started half an hour later, generates no occurrence for it. -/
example : (storedBodies utcPlatform fun _ => true).execMeets (CallFits utcPlatform) [standups]
    [.editOccurrence 0 (.instant 118800) { summary := some "Planning" } true,
      .replaceMasterFields 0 { dtstart := some ⟨34200, some "UTC"⟩ } true] = false := by decide

end MailVerdict.Analysis.WellFormedEvents
