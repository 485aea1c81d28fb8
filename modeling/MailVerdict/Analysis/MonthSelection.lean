import MailVerdict.Model.MonthQuery

/-!
# What the month query hides

The three columns know the master: where it starts, where an explicit DTEND ends it, and
that it recurs. An occurrence of the object is one of three things. The master at its own
times, which the columns know unless its end comes from DURATION or from the rule that a
date without an end lasts a day. An occurrence the rule or an RDATE generates, which no rule
puts before the master but an RDATE may. A stored override, which may stand anywhere.

`Reached` asks of exactly these that the columns reach the window, and an object whose
expansion is not empty is selected if and only if it does (`selected_iff_reached`).
-/

namespace MailVerdict.Analysis.MonthSelection

open Model.Ical
open Model.MonthQuery

/-- Where the span the library is asked for ends: one microsecond early for a body that
recurs. -/
def queryEnd (cal : Calendar) (w : Window) : ℤ :=
  if cal.vevents.any fun c => Timing.recurs c.timing then w.stop - 1 else w.stop

/-- A span overlaps the window as the library is asked for it. -/
def Overlaps (cal : Calendar) (w : Window) (span : Span) : Prop :=
  w.start ≤ queryEnd cal w ∧
    spanContains w.start (queryEnd cal w) (ICalTime.micros span.start)
      (ICalTime.micros span.stop) = true

structure Reached (P : Platform) (cal : Calendar) (m : Component) (start : ICalTime)
    (w : Window) : Prop where
  /-- An override in the window has a master that the columns select. -/
  override : ∀ id c s, cal.override P id = some c → c.timing.dtstart = some s →
    Overlaps cal w ⟨s, c.timing.endValue P s⟩ → (Columns.parse m).selected w = true
  /-- An RDATE before the start that is in the window has its master start before the
  window ends. -/
  rdate : ∀ id span, cal.override P id = none → P.generate m.timing id = some span →
    span.start ∈ m.timing.rdate → ICalTime.micros span.start < ICalTime.micros start →
      Overlaps cal w span → ICalTime.micros start < w.stop
  /-- A master that does not recur, has no DTEND and starts before the window is over when
  the window starts. -/
  running : Timing.recurs m.timing = false → m.timing.dtend = none →
    ICalTime.micros start < w.start → cal.override P (stampedId start) = none →
      (P.generate m.timing (stampedId start)).isSome = true →
        ICalTime.micros (m.timing.endValue P start) ≤ w.start

/-- The condition on a row: a write is pending, the body has no master or its master no
start, or the columns reach the window. -/
def Covered (P : Platform) (o : DavObject) (w : Window) : Prop :=
  o.pending = false → ∀ m start, o.data.master = some m → m.timing.dtstart = some start →
    Reached P o.data m start w

section Selection

variable {o : DavObject} {w : Window} {m : Component} {start : ICalTime}

theorem selected_unparsed (w : Window) : Columns.unparsed.selected w = true := rfl

theorem columns_of_master (hpending : o.pending = false) (hmaster : o.data.master = some m) :
    o.columns = .parse m := by
  rw [DavObject.columns, if_neg (by rw [hpending]; exact Bool.false_ne_true), hmaster]

theorem selected_parse_iff (hstart : m.timing.dtstart = some start) :
    (Columns.parse m).selected w = true ↔ ICalTime.micros start < w.stop ∧
      (Timing.recurs m.timing = true ∨
        w.start ≤ ICalTime.micros (m.timing.dtend.getD start)) := by
  have hend : ((Columns.parse m).dtend.or (Columns.parse m).dtstart)
      = some (ICalTime.micros (m.timing.dtend.getD start)) := by
    cases hdtend : m.timing.dtend <;> simp [Columns.parse, hstart, hdtend]
  have hdtstart : (Columns.parse m).dtstart = some (ICalTime.micros start) := by
    simp [Columns.parse, hstart]
  have hrecurring : (Columns.parse m).isRecurring = some (Timing.recurs m.timing) := rfl
  rw [Columns.selected, hend, hdtstart, hrecurring]
  cases Timing.recurs m.timing <;> simp
  tauto

theorem selected_of_unknown
    (h : o.pending = true ∨ o.data.master = none ∨
      ∃ m, o.data.master = some m ∧ m.timing.dtstart = none) : o.columns.selected w = true := by
  cases hpending : o.pending with
  | true =>
    rw [DavObject.columns, if_pos hpending]
    exact selected_unparsed w
  | false =>
    rw [hpending] at h
    obtain hmaster | ⟨m, hmaster, hstart⟩ := h.resolve_left Bool.false_ne_true
    · rw [DavObject.columns, if_neg (by rw [hpending]; exact Bool.false_ne_true), hmaster]
      exact selected_unparsed w
    · rw [columns_of_master hpending hmaster]
      simp [Columns.selected, Columns.parse, hstart]

theorem spanContains_bounds {low high a b : ℤ} (h : spanContains low high a b = true) :
    a ≤ high ∧ (low < high → a < high) ∧ low ≤ b ∧ (a < low → low < b) := by
  rw [spanContains] at h
  split at h
  · split at h
    all_goals
      simp only [decide_eq_true_eq] at h
      omega
  · split at h
    all_goals
      simp only [decide_eq_true_eq] at h
      omega

theorem spanContains_of_running {low high a b : ℤ} (ha : a < low) (hb : low < b)
    (hspan : low ≤ high) : spanContains low high a b = true := by
  rw [spanContains, if_neg (by omega)]
  split <;> simp only [decide_eq_true_eq] <;> omega

theorem queryEnd_cases (cal : Calendar) (w : Window) :
    queryEnd cal w = w.stop - 1 ∨ queryEnd cal w = w.stop := by
  rw [queryEnd]
  split
  · exact Or.inl rfl
  · exact Or.inr rfl

theorem start_le_queryEnd (cal : Calendar) (w : Window) : w.start ≤ queryEnd cal w := by
  have hordered := w.ordered
  obtain hend | hend := queryEnd_cases cal w <;> omega

theorem Overlaps.bounds {cal : Calendar} {span : Span} (h : Overlaps cal w span) :
    ICalTime.micros span.start < w.stop ∧ w.start ≤ ICalTime.micros span.stop ∧
      (ICalTime.micros span.start < w.start → w.start < ICalTime.micros span.stop) := by
  obtain ⟨hle, hlt, hstop, hrun⟩ := spanContains_bounds h.2
  refine ⟨?_, hstop, hrun⟩
  have hordered := w.ordered
  obtain hend | hend := queryEnd_cases cal w <;> omega

end Selection

section Expansion

variable {P : Platform} {R : Recurring} {cal : Calendar} {w : Window}

theorem collect_foldl_ne_nil (occurrences collected : List Component) (h : collected ≠ []) :
    occurrences.foldl (fun collected o =>
      if collected.any fun c => decide (occurrenceIdentity c = occurrenceIdentity o) then collected
      else collected ++ [o]) collected ≠ [] := by
  induction occurrences generalizing collected with
  | nil => exact h
  | cons o occurrences ih =>
    rw [List.foldl_cons]
    split
    · exact ih collected h
    · exact ih _ (by simp)

theorem collect_eq_nil_iff (occurrences : List Component) :
    collect occurrences = [] ↔ occurrences = [] := by
  cases occurrences with
  | nil => exact ⟨fun _ => rfl, fun _ => rfl⟩
  | cons o occurrences =>
    refine ⟨fun h => absurd h (collect_foldl_ne_nil occurrences [o] (by simp)), nofun⟩

/-- A query answers something exactly when an occurrence lies within its window. -/
theorem occurrences_ne_nil_iff (hdoc : Documented P R) {eq : ExpansionQuery}
    (hbuild : buildExpansionQuery cal = .ok eq) {occurrences : List Component}
    (h : eq.occurrences R w = .ok occurrences) :
    occurrences ≠ [] ↔
      ∃ o, Occurs P cal o ∧ Component.within o w.start (queryEnd cal w) = true := by
  rw [buildExpansionQuery] at hbuild
  split at hbuild
  · cases hbuild
  · obtain rfl := Except.ok.inj hbuild
    have hasked : ∃ asked, R.between cal w.start (queryEnd cal w) = .ok asked ∧
        (occurrences = [] ↔ asked = []) := by
      have hordered := w.ordered
      rw [ExpansionQuery.occurrences] at h
      rw [queryEnd]
      split at h
      next hrecurring =>
        rw [if_pos hrecurring]
        rw [boundedBetween, if_neg (by omega)] at h
        split at h
        · cases h
        next asked hasked =>
          split at h
          · cases h
          · obtain rfl := Except.ok.inj h
            exact ⟨asked, hasked, collect_eq_nil_iff asked⟩
      next hsingle =>
        rw [if_neg hsingle]
        split at h
        · cases h
        next asked hasked =>
          obtain rfl := Except.ok.inj h
          exact ⟨asked, hasked, Iff.rfl⟩
    obtain ⟨asked, hasked, hnil⟩ := hasked
    rw [ne_eq, hnil]
    constructor
    · intro hne
      obtain ⟨o, ho⟩ := List.exists_mem_of_ne_nil asked hne
      exact ⟨o, (hdoc.between_iff cal _ _ asked hasked o).1 ho⟩
    · rintro ⟨o, ho⟩
      exact List.ne_nil_of_mem ((hdoc.between_iff cal _ _ asked hasked o).2 ho)

theorem expandInstances_ne_nil_iff (hdoc : Documented P R) {events : List ParsedEvent}
    (h : expandInstances P R cal w = .ok events) :
    events ≠ [] ↔ ∃ o, Occurs P cal o ∧ Component.within o w.start (queryEnd cal w) = true := by
  rw [expandInstances] at h
  cases hbuild : buildExpansionQuery cal with
  | error e =>
    rw [hbuild] at h
    cases h
  | ok eq =>
    rw [hbuild] at h
    change expandFromQuery P R eq w = .ok events at h
    rw [expandFromQuery] at h
    cases hocc : eq.occurrences R w with
    | error e =>
      rw [hocc] at h
      cases h
    | ok occurrences =>
      rw [hocc] at h
      change (if _ then _ else _) = _ at h
      split at h
      next hstarts =>
        obtain rfl := Except.ok.inj h
        rw [← occurrences_ne_nil_iff hdoc hbuild hocc, not_iff_not]
        rw [← List.length_eq_zero_iff, List.length_insertionSort, List.length_eq_zero_iff,
          List.filterMap_eq_nil_iff]
        refine ⟨fun hnone => List.eq_nil_iff_forall_not_mem.2 fun o ho => ?_,
          fun hnil o ho => absurd ho (hnil ▸ List.not_mem_nil)⟩
        obtain ⟨start, hstart⟩ := Option.isSome_iff_exists.1 (List.all_eq_true.1 hstarts o ho)
        have hparsed := hnone o ho
        rw [parseComponent, hstart] at hparsed
        cases hparsed
      next => cases h

end Expansion

section Claim

variable {P : Platform} {R : Recurring} {o : DavObject} {w : Window} {m : Component}
  {start : ICalTime}

theorem occurs_in_window {c : Component} (h : Occurs P o.data c)
    (hwithin : Component.within c w.start (queryEnd o.data w) = true) :
    (∃ id moved s, o.data.override P id = some moved ∧ moved.timing.dtstart = some s ∧
      Overlaps o.data w ⟨s, moved.timing.endValue P s⟩) ∨
    ∃ id m span, o.data.override P id = none ∧ o.data.master = some m ∧
      P.generate m.timing id = some span ∧ Overlaps o.data w span := by
  have hle := start_le_queryEnd o.data w
  cases h with
  | override h hstart => exact Or.inl ⟨_, _, _, h, hstart, hle, hwithin⟩
  | generated h hmaster hspan => exact Or.inr ⟨_, _, _, h, hmaster, hspan, hle, hwithin⟩

/-- An object with no master generates nothing, and one whose master has no start neither:
what it shows are overrides, and it is selected. -/
theorem selected_of_covered (hdoc : Documented P R) {c : Component}
    (hcovered : Covered P o w) (h : Occurs P o.data c)
    (hwithin : Component.within c w.start (queryEnd o.data w) = true) :
    o.columns.selected w = true := by
  by_cases hunknown : o.pending = true ∨ o.data.master = none ∨
      ∃ m, o.data.master = some m ∧ m.timing.dtstart = none
  · exact selected_of_unknown hunknown
  · simp only [not_or, not_exists, not_and] at hunknown
    obtain ⟨hpending, hmaster, hstart⟩ := hunknown
    rw [Bool.not_eq_true] at hpending
    obtain ⟨m, hmaster⟩ := Option.ne_none_iff_exists'.1 hmaster
    obtain ⟨start, hstart⟩ := Option.ne_none_iff_exists'.1 (hstart m hmaster)
    have hreached := hcovered hpending m start hmaster hstart
    rw [columns_of_master hpending hmaster]
    obtain ⟨id, moved, s, hmoved, hs, hoverlaps⟩ | ⟨id, m', span, hover, hm', hspan, hoverlaps⟩ :=
      occurs_in_window h hwithin
    · exact hreached.override id moved s hmoved hs hoverlaps
    · obtain rfl := Option.some.inj (hmaster.symm.trans hm')
      rw [selected_parse_iff hstart]
      obtain ⟨hbefore, hends, hruns⟩ := hoverlaps.bounds
      cases hrecurs : Timing.recurs m.timing with
      | true =>
        refine ⟨?_, Or.inl rfl⟩
        obtain ⟨start', hstart', hcase⟩ := hdoc.notBefore m.timing id span hspan
        obtain rfl := Option.some.inj (hstart.symm.trans hstart')
        -- a rule puts nothing before the start; an RDATE that is there is covered
        by_cases hlate : ICalTime.micros start ≤ ICalTime.micros span.start
        · exact lt_of_le_of_lt hlate hbefore
        · exact hreached.rdate id span hover hspan (hcase.resolve_left hlate)
            (not_le.1 hlate) hoverlaps
      | false =>
        obtain ⟨start', hstart', rfl, rfl⟩ := hdoc.single m.timing id span hrecurs hspan
        obtain rfl := Option.some.inj (hstart.symm.trans hstart')
        refine ⟨hbefore, Or.inr ?_⟩
        cases hdtend : m.timing.dtend with
        | some stop =>
          have hend : m.timing.endValue P start = stop := by
            rw [Timing.endValue, hdtend]
          rw [hend] at hends
          exact hends
        | none =>
          by_contra hlate
          have hover' := hreached.running hrecurs hdtend (not_le.1 hlate) hover
            (by rw [hspan]; rfl)
          exact absurd (hruns (not_le.1 hlate)) (not_lt.2 hover')

theorem reached_of_selected (hdoc : Documented P R)
    (hpending : o.pending = false)
    (hmaster : o.data.master = some m) (hstart : m.timing.dtstart = some start)
    (hselected : (∃ c, Occurs P o.data c ∧
      Component.within c w.start (queryEnd o.data w) = true) → o.columns.selected w = true) :
    Reached P o.data m start w := by
  rw [columns_of_master hpending hmaster] at hselected
  have hle := start_le_queryEnd o.data w
  refine ⟨fun id c s hover hs hoverlaps => ?_, fun id span hover hspan hrdate hbefore hoverlaps => ?_,
    fun hsingle hdtend hbefore hover hgenerated => ?_⟩
  · exact hselected ⟨_, .override hover hs, hoverlaps.2⟩
  · exact ((selected_parse_iff hstart).1
      (hselected ⟨_, .generated hover hmaster hspan, hoverlaps.2⟩)).1
  · obtain ⟨span, hspan⟩ := Option.isSome_iff_exists.1 hgenerated
    obtain ⟨start', hstart', -, rfl⟩ := hdoc.single m.timing _ span hsingle hspan
    obtain rfl := Option.some.inj (hstart.symm.trans hstart')
    by_contra hrunning
    have hoverlaps : Overlaps o.data w ⟨start, m.timing.endValue P start⟩ :=
      ⟨hle, spanContains_of_running hbefore (not_le.1 hrunning) hle⟩
    obtain ⟨-, hrecurs | hend⟩ := (selected_parse_iff hstart).1
      (hselected ⟨_, .generated hover hmaster hspan, hoverlaps.2⟩)
    · rw [hsingle] at hrecurs
      cases hrecurs
    · rw [hdtend] at hend
      exact absurd hbefore (not_lt.2 hend)

/-- A live object of the listed calendars whose expansion returns is listed whenever the
expansion is not empty, if and only if its columns reach the window. -/
theorem selected_iff_reached (hdoc : Documented P R) (rows : List DavObject)
    (collectionIds : List Uuid) (w : Window) (o : DavObject) (hrow : o ∈ rows)
    (hcollection : o.collectionId ∈ collectionIds) (hlive : o.deleted = false)
    (events : List ParsedEvent) (hevents : expandInstances P R o.data w = .ok events) :
    (events ≠ [] → o ∈ listInCollections rows collectionIds (some w)) ↔ Covered P o w := by
  have hlisted : o ∈ listInCollections rows collectionIds (some w) ↔
      o.columns.selected w = true := by
    have hids : collectionIds.isEmpty = false := by
      cases collectionIds with
      | nil => cases hcollection
      | cons _ _ => rfl
    rw [listInCollections, hids]
    simp [hrow, hcollection, hlive]
  rw [hlisted, expandInstances_ne_nil_iff hdoc hevents]
  constructor
  · intro hselected hpending m start hmaster hstart
    exact reached_of_selected hdoc hpending hmaster hstart hselected
  · rintro hcovered ⟨c, hoccurs, hwithin⟩
    exact selected_of_covered hdoc hcovered hoccurs hwithin

end Claim

section Examples

def utc : Platform where
  wall _ s := s
  resolve _ s := s
  lower s := s
  parseRrule _ := none
  generate _ _ := none
  generate_stamped := by
    intro t id span h
    cases h

/-- The starts of a series without a rule: DTSTART and the RDATEs, less the EXDATEs. -/
def listedStarts (t : Timing) (start : ICalTime) : List ICalTime :=
  (start :: t.rdate).filter fun s => s ∉ t.exdate

/-- Where the occurrence at a listed start ends: as long after it as the first ends after
DTSTART. -/
def listedEnd (t : Timing) (start s : ICalTime) : ICalTime :=
  if s = start then t.endValue utc start
  else s.add utc ((t.endValue utc start).toDatetime - start.toDatetime)

def datesPlatform : Platform :=
  { utc with
    generate := fun t id => t.dtstart.bind fun start =>
      ((listedStarts t start).find? fun s => decide (stampedId s = id)).map fun s =>
        ⟨s, listedEnd t start s⟩
    generate_stamped := by
      intro t id span h
      obtain ⟨start, -, hfind⟩ := Option.bind_eq_some_iff.1 h
      obtain ⟨s, hs, rfl⟩ := Option.map_eq_some_iff.1 hfind
      simpa using List.find?_some hs }

theorem generate_listed {t : Timing} {id : RecurrenceId} {span : Span}
    (h : datesPlatform.generate t id = some span) :
    ∃ start, t.dtstart = some start ∧ stampedId span.start = id ∧
      span.start ∈ listedStarts t start ∧ span.stop = listedEnd t start span.start := by
  obtain ⟨start, hstart, hfind⟩ := Option.bind_eq_some_iff.1 h
  obtain ⟨s, hs, rfl⟩ := Option.map_eq_some_iff.1 hfind
  exact ⟨start, hstart, by simpa using List.find?_some hs, List.mem_of_find?_eq_some hs, rfl⟩

def libraryFor (cal : Calendar) (all : List Component) : Recurring where
  between := fun cal' low high =>
    if cal' = cal then .ok (all.filter fun o => Component.within o low high)
    else .error "not this body"

theorem documented_libraryFor {cal : Calendar} {all : List Component}
    (hall : ∀ o, o ∈ all ↔ Occurs datesPlatform cal o) :
    Documented datesPlatform (libraryFor cal all) where
  between_iff cal' low high occurrences h o := by
    simp only [libraryFor] at h
    split at h
    next hsame =>
      obtain rfl := Except.ok.inj h
      rw [List.mem_filter, hall, hsame]
    next => cases h
  single t id span hsingle h := by
    obtain ⟨start, hstart, hid, hmem, hstop⟩ := generate_listed h
    have hrdate : t.rdate = [] := by
      rw [Timing.recurs, Bool.or_eq_false_iff] at hsingle
      simpa using hsingle.2
    rw [listedStarts, hrdate, List.mem_filter, List.mem_singleton] at hmem
    obtain ⟨hsame, -⟩ := hmem
    refine ⟨start, hstart, hsame ▸ hid, ?_⟩
    rw [listedEnd, if_pos hsame] at hstop
    obtain ⟨s, e⟩ := span
    obtain rfl : s = start := hsame
    obtain rfl : e = t.endValue utc s := hstop
    rfl
  notBefore t id span h := by
    obtain ⟨start, hstart, -, hmem, -⟩ := generate_listed h
    refine ⟨start, hstart, ?_⟩
    obtain hsame | hrdate := List.mem_cons.1 (List.mem_filter.1 hmem).1
    · rw [hsame]
      exact Or.inl le_rfl
    · exact Or.inr hrdate

def anEvent (start : ICalTime) (duration : Option ℤ) : Component where
  uid := "event"
  summary := some "Event"
  location := none
  description := none
  status := none
  sequence := none
  organizer := none
  attendees := []
  timing := { dtstart := some start, dtend := none, duration := duration, rrule := []
              rdate := [], exdate := [] }
  recurrenceId := none
  alarms := []
  transp := none

def aRow (start : ICalTime) (duration : Option ℤ) : DavObject where
  collectionId := 1
  deleted := false
  pending := false
  data := ⟨none, [anEvent start duration]⟩

def itsOccurrence (start : ICalTime) (duration : Option ℤ) : Component :=
  (anEvent start duration).occurrence
    ⟨start, (anEvent start duration).timing.endValue utc start⟩

theorem span_of_anEvent {start : ICalTime} {duration : Option ℤ} {id : RecurrenceId} {span : Span}
    (h : datesPlatform.generate (anEvent start duration).timing id = some span) :
    span = ⟨start, (anEvent start duration).timing.endValue utc start⟩ := by
  obtain ⟨start', hstart', -, hmem, hstop⟩ := generate_listed h
  obtain rfl := Option.some.inj hstart'
  obtain ⟨s, e⟩ := span
  obtain rfl : s = start := List.mem_singleton.1 (List.mem_filter.1 hmem).1
  rw [listedEnd, if_pos rfl] at hstop
  exact congrArg _ hstop

theorem occurs_aRow (start : ICalTime) (duration : Option ℤ) (o : Component) :
    o ∈ [itsOccurrence start duration] ↔ Occurs datesPlatform (aRow start duration).data o := by
  rw [List.mem_singleton]
  constructor
  · rintro rfl
    refine @Occurs.generated _ _ (stampedId start) _ _ rfl rfl ?_
    simp [datesPlatform, anEvent, listedStarts, listedEnd]
  · rintro (⟨h, -⟩ | ⟨-, hmaster, hspan⟩)
    · cases h
    · obtain rfl := Option.some.inj hmaster
      rw [span_of_anEvent hspan]
      rfl

theorem documented_aRow (start : ICalTime) (duration : Option ℤ) :
    Documented datesPlatform (libraryFor (aRow start duration).data [itsOccurrence start duration]) :=
  documented_libraryFor (occurs_aRow start duration)

def february : Window := ⟨20485 * 86400 * 1000000, 20513 * 86400 * 1000000, by decide⟩

/-- The all-day event of the first of February has no end in its columns, and is listed. -/
theorem first_of_february_is_listed : ∃ events,
    expandInstances datesPlatform (libraryFor (aRow (.date 20485) none).data
      [itsOccurrence (.date 20485) none]) (aRow (.date 20485) none).data february = .ok events ∧
    events ≠ [] ∧
    aRow (.date 20485) none ∈ listInCollections [aRow (.date 20485) none] [1] (some february) := by
  obtain ⟨events, hevents, hsome⟩ : ∃ events,
      expandInstances datesPlatform (libraryFor (aRow (.date 20485) none).data
        [itsOccurrence (.date 20485) none]) (aRow (.date 20485) none).data february = .ok events ∧
      events.isEmpty = false := ⟨_, rfl, rfl⟩
  have hne : events ≠ [] := by
    rintro rfl
    cases hsome
  refine ⟨events, hevents, hne, ?_⟩
  refine (selected_iff_reached (documented_aRow (.date 20485) none) [aRow (.date 20485) none] [1]
    february (aRow (.date 20485) none) List.mem_cons_self List.mem_cons_self rfl events
    hevents).2 ?_ hne
  intro _ m start hmaster hstart
  obtain rfl := Option.some.inj hmaster
  obtain rfl := Option.some.inj hstart
  exact
    { override := fun id c s h => by cases h
      rdate := fun id span _ _ h => by cases h
      running := fun _ _ hbefore => absurd hbefore (by decide) }

/-- A party from eleven in the evening of the last of January, for two hours by DURATION:
the expansion has it in February, and the query does not list it. -/
theorem running_event_is_hidden : ¬∀ (P : Platform) (R : Recurring), Documented P R →
    ∀ (rows : List DavObject) (collectionIds : List Uuid) (w : Window), ∀ o ∈ rows,
      o.collectionId ∈ collectionIds → o.deleted = false → ∀ events,
        expandInstances P R o.data w = .ok events → events ≠ [] →
          o ∈ listInCollections rows collectionIds (some w) := by
  intro hclaim
  let party := aRow (.timed (20484 * 86400 + 82800) (some "UTC")) (some 7200)
  obtain ⟨events, hevents, hsome⟩ : ∃ events,
      expandInstances datesPlatform (libraryFor party.data
        [itsOccurrence (.timed (20484 * 86400 + 82800) (some "UTC")) (some 7200)])
        party.data february = .ok events ∧ events.isEmpty = false := ⟨_, rfl, rfl⟩
  have hne : events ≠ [] := by
    rintro rfl
    cases hsome
  have hlisted := hclaim datesPlatform _ (documented_aRow _ _) [party] [1] february party
    List.mem_cons_self List.mem_cons_self rfl events hevents hne
  have hnone : listInCollections [party] [1] (some february) = [] := rfl
  rw [hnone] at hlisted
  cases hlisted

end Examples

end MailVerdict.Analysis.MonthSelection
