import MailVerdict.Analysis.OccurrenceEdits
import Mathlib.Data.Set.Finite.List

/-!
# Changing a whole series

A change confirmed for all events is sent with the times of the occurrence it was made
on, and the server writes these over the master's DTSTART and DTEND. Opened at the first
occurrence they are the master's own times, moved as the person moved them; opened at a
later one they move the whole series there.
-/

namespace MailVerdict.Analysis.SeriesEdits

open MailVerdict.Computation Model.Ical Model.CalendarEvents
open Analysis.IcalBodies Analysis.OccurrenceEdits

/-! ### Moving -/

/-- The id an occurrence has once its start is moved: by whole days on a date. -/
def moveId (n : ℤ) : RecurrenceId → RecurrenceId
  | .day d => .day (d + n / secondsPerDay)
  | .instant s => .instant (s + n)
  | .localTime s => .localTime (s + n)

def moveTime (n : ℤ) : ICalTime → ICalTime
  | .date d => .date (d + n / secondsPerDay)
  | .timed s z => .timed (s + n) z

/-- A series moved as a whole: its start and its end, with the rule as it is. -/
def moveTiming (byStart byEnd : ℤ) (t : Timing) : Timing :=
  { t with dtstart := t.dtstart.map (moveTime byStart), dtend := t.dtend.map (moveTime byEnd) }

/-- An all-day series without an end, given the one it stands for: the next day. -/
def withEnd (t : Timing) : Timing :=
  match t.dtstart, t.dtend, t.duration with
  | some (.date d), none, none => { t with dtend := some (.date (d + 1)) }
  | _, _, _ => t

section

variable (P : Platform)

/-- Start and end of the occurrence a rule generates under an id. -/
def spanAt (t : Timing) (id : RecurrenceId) : Option (Instant × Instant) :=
  (P.generate t id).map fun span => (span.start.toDatetime, span.stop.toDatetime)

/-- The occurrence the master's rule generates, before any exception. -/
def generatedAt (cal : Calendar) (id : RecurrenceId) : Option (Instant × Instant) :=
  cal.master.bind fun m => spanAt P m.timing id

def excluded (cal : Calendar) : List RecurrenceId :=
  (cal.master.map fun m => m.timing.exdate.map stampedId).getD []

/-- The series is whole after a change: every occurrence the master's rule generated is
generated, moved by as much as the person moved the one it was made on, and no other; the
exceptions and the EXDATEs belong to the same occurrences, under the ids these have now. -/
structure SeriesKept (before after : Calendar) (byStart byEnd : ℤ) : Prop where
  occurrences : ∀ id, generatedAt P after (moveId byStart id)
    = (generatedAt P before id).map fun t => (t.1 + byStart, t.2 + byEnd)
  exceptions : ∀ id, (after.override P (moveId byStart id)).map contents
    = (before.override P id).map contents
  exdates : ∀ id, moveId byStart id ∈ excluded after ↔ id ∈ excluded before

/-- The occurrence is shown at the master's own DTSTART and DTEND, and these are dates or
times with a zone. -/
def AtOwnTimes (shown : ParsedEvent) (t : Timing) : Prop :=
  ∃ start stop, (withEnd t).dtstart = some start ∧ (withEnd t).dtend = some stop ∧
    ∀ x y, (x, y) ∈ [(start, shown.dtstart), (stop, shown.dtend)] →
      y = x.toDatetime ∧ x.isDate = shown.allDay ∧ (x.isDate = true ∨ x.zone.isSome = true)

/-- The rule text the form sends, if it is the form, reads back as the series' rules. -/
def RuleReadsBack (g : Gesture) (t : Timing) : Prop :=
  match g with
  | .save form => editedRrule P t.rrule (some form.rrule) = .ok t.rrule
  | .drag => True

/-- The rule follows the move: from the moved DTSTART and DTEND it generates the moved
occurrences. -/
def Follows (t : Timing) (byStart byEnd : ℤ) : Prop :=
  ∀ id, spanAt P (moveTiming byStart byEnd (withEnd t)) (moveId byStart id)
    = (spanAt P t id).map fun u => (u.1 + byStart, u.2 + byEnd)

/-- Nothing that names an occurrence is left behind: the start is not moved, or the series
has neither an exception nor an EXDATE. -/
def NamesStay (cal : Calendar) (byStart : ℤ) : Prop :=
  ∀ id, (cal.override P id).isSome = true ∨ id ∈ excluded cal → moveId byStart id = id

/-- What is documented of the time-zone database and of the recurrence library: UTC is the
wall clock of UTC; an all-day event without an end lasts a day; a rule generates nothing
before DTSTART; and the occurrence at DTSTART ends at DTEND. -/
structure Documented : Prop where
  utc : ∀ s, P.wall "UTC" s = s
  one_day : ∀ t id, P.generate (withEnd t) id = P.generate t id
  not_before : ∀ t id span start, t.rdate = [] → t.dtstart = some start →
    P.generate t id = some span → start.toDatetime ≤ span.start.toDatetime
  own_end : ∀ t span start stop, t.rdate = [] → t.dtstart = some start → t.dtend = some stop →
    P.generate t (stampedId start) = some span → span.stop.toDatetime = stop.toDatetime

end

variable {P : Platform} {identity : Option String} {cal cal' : Calendar} {m m' : Component}
  {shown : ParsedEvent} {g : Gesture} {byStart byEnd : ℤ} {id : RecurrenceId} {t : Timing}

/-! ### What is written -/

theorem moveId_zero : moveId 0 id = id := by
  cases id with
  | day d =>
    show RecurrenceId.day (d + 0 / secondsPerDay) = _
    rw [Int.zero_ediv, Int.add_zero]
  | instant s => exact congrArg RecurrenceId.instant (Int.add_zero s)
  | localTime s => exact congrArg RecurrenceId.localTime (Int.add_zero s)

theorem moveId_injective {n : ℤ} {a b : RecurrenceId} (h : moveId n a = moveId n b) : a = b := by
  cases a with
  | day d =>
    cases b with
    | day e => exact congrArg _ ((Int.add_left_inj _).1 (RecurrenceId.day.inj h))
    | instant u => cases h
    | localTime u => cases h
  | instant s =>
    cases b with
    | day e => cases h
    | instant u => exact congrArg _ ((Int.add_left_inj _).1 (RecurrenceId.instant.inj h))
    | localTime u => cases h
  | localTime s =>
    cases b with
    | day e => cases h
    | instant u => cases h
    | localTime u => exact congrArg _ ((Int.add_left_inj _).1 (RecurrenceId.localTime.inj h))

theorem moveTime_zero (x : ICalTime) : moveTime 0 x = x := by
  cases x with
  | date d =>
    show ICalTime.date (d + 0 / secondsPerDay) = _
    rw [Int.zero_ediv, Int.add_zero]
  | timed s z => exact congrArg (ICalTime.timed · z) (Int.add_zero s)

theorem written (h : updateEvent P identity cal (g.request shown byStart byEnd) = .ok cal') :
    ∃ m m' dtstart dtend rrule, cal.master = some m ∧ cal'.master = some m' ∧
      editedTime P (g.request shown byStart byEnd).fields.allDay m.timing.dtstart m.timing.dtstart
        (some (isoTime (shown.dtstart + byStart))) = .ok dtstart ∧
      editedTime P (g.request shown byStart byEnd).fields.allDay m.timing.dtend dtstart
        (some (isoTime (shown.dtend + byEnd))) = .ok dtend ∧
      editedRrule P m.timing.rrule (g.request shown byStart byEnd).fields.rrule = .ok rrule ∧
      m'.timing = { m.timing with dtstart := dtstart, dtend := dtend, rrule := rrule } ∧
      ∀ id, cal'.override P id = cal.override P id := by
  obtain ⟨m, hm, hcase⟩ := updateEvent_cases h
  have hscope : (g.request shown byStart byEnd).scope = some .all := by
    cases g <;> rfl
  have hstart : (g.request shown byStart byEnd).fields.dtstart
      = some (isoTime (shown.dtstart + byStart)) := by
    cases g <;> rfl
  have hend : (g.request shown byStart byEnd).fields.dtend
      = some (isoTime (shown.dtend + byEnd)) := by
    cases g <;> rfl
  rcases hcase with ⟨id, hthis, -, -⟩ | ⟨-, -, hrun⟩
  · rw [hscope] at hthis
    cases hthis
  · have hstays : ∀ c c', cal.master = some c →
        applyFieldOverrides P c (g.request shown byStart byEnd).fields
          (bumpSequence (organizes P identity m) m) = .ok c' → c'.recurrenceId = none := by
      intro c c' hc hc'
      obtain ⟨dtstart, dtend, rrule, -, -, -, rfl⟩ := applyFieldOverrides_ok hc'
      rw [bumped_eq]
      exact master_recurrenceId (m := c) hc
    have hover : ∀ id, cal'.override P id = cal.override P id :=
      fun id => override_onMaster hstays hrun
    obtain ⟨c, c', hc, hc', hmaster⟩ := master_onMaster hstays hrun
    obtain ⟨dtstart, dtend, rrule, hdtstart, hdtend, hrrule, rfl⟩ := applyFieldOverrides_ok hc'
    rw [hstart] at hdtstart
    rw [hend] at hdtend
    refine ⟨c, _, dtstart, dtend, rrule, hc, hmaster, hdtstart, hdtend, hrrule, ?_, hover⟩
    rw [bumped_eq]

theorem withEnd_eq : withEnd t = { t with dtend := (withEnd t).dtend } := by
  unfold withEnd
  split
  · rfl
  · rfl

theorem withEnd_dtend {stop : ICalTime} (h : (withEnd t).dtend = some stop) :
    stop.isDate = true ∨ t.dtend = some stop := by
  unfold withEnd at h
  split at h
  · cases h
    exact .inl rfl
  · exact .inr h

theorem editedTime_moved (hutc : ∀ s, P.wall "UTC" s = s) {allDay : Option Bool}
    {current dtstart : Option ICalTime} {x : ICalTime} {y n : ℤ} (hy : y = x.toDatetime)
    (hday : isAllDay allDay dtstart = .ok x.isDate)
    (hcurrent : x.isDate = true ∨ current = some x) (hfixed : x.isDate = true ∨ x.zone.isSome = true) :
    editedTime P allDay current dtstart (some (isoTime (y + n))) = .ok (some (moveTime n x)) := by
  unfold editedTime overrideTime
  cases x with
  | date d =>
    have hdate : dateOf P (isoTime (y + n)).seconds (isoTime (y + n)).zone
        = d + n / secondsPerDay := by
      show P.wall "UTC" (y + n) / secondsPerDay = _
      rw [hutc, hy]
      show (d * secondsPerDay + n) / secondsPerDay = _
      rw [Int.add_comm, Int.add_mul_ediv_right n d (by decide), Int.add_comm]
    simp only [hday, ICalTime.isDate, hdate]
    rfl
  | timed s z =>
    cases z with
    | none => simp [ICalTime.isDate, ICalTime.zone] at hfixed
    | some z =>
      have hcurrent : current = some (.timed s (some z)) := by
        simpa [ICalTime.isDate] using hcurrent
      simp only [hday, ICalTime.isDate, hcurrent, hy]
      rfl

theorem isDate_moveTime (n : ℤ) (x : ICalTime) : (moveTime n x).isDate = x.isDate := by
  cases x with
  | date d => rfl
  | timed s z => rfl

theorem written_moved (hutc : ∀ s, P.wall "UTC" s = s) (hown : AtOwnTimes shown t)
    {allDay : Option Bool} (hallDay : allDay = none ∨ allDay = some shown.allDay)
    {dtstart dtend : Option ICalTime}
    (hstart : editedTime P allDay t.dtstart t.dtstart (some (isoTime (shown.dtstart + byStart)))
      = .ok dtstart)
    (hend : editedTime P allDay t.dtend dtstart (some (isoTime (shown.dtend + byEnd))) = .ok dtend) :
    ({ t with dtstart := dtstart, dtend := dtend } : Timing)
      = moveTiming byStart byEnd (withEnd t) := by
  obtain ⟨start, stop, hs, he, hown⟩ := hown
  obtain ⟨hsv, hskind, hsfixed⟩ := hown start shown.dtstart (by simp)
  obtain ⟨hev, hekind, hefixed⟩ := hown stop shown.dtend (by simp)
  have hday : ∀ x : ICalTime, x.isDate = shown.allDay →
      isAllDay allDay (some x) = .ok shown.allDay := by
    intro x hkind
    rcases hallDay with rfl | rfl
    · rw [← hkind]
      rfl
    · rfl
  have hs' : t.dtstart = some start := by
    rw [withEnd_eq] at hs
    exact hs
  rw [hs', editedTime_moved hutc hsv ((hday start hskind).trans (by rw [hskind])) (.inr rfl) hsfixed]
    at hstart
  cases hstart
  have hmoved : (moveTime byStart start).isDate = shown.allDay := by
    rw [isDate_moveTime, hskind]
  rw [editedTime_moved hutc hev ((hday _ hmoved).trans (by rw [hekind])) (withEnd_dtend he) hefixed]
    at hend
  cases hend
  unfold moveTiming
  rw [hs, he, withEnd_eq]
  rfl

/-! ### When the series is kept -/

theorem follows_zero (hone : ∀ t id, P.generate (withEnd t) id = P.generate t id) :
    Follows P t 0 0 := by
  have hsame : moveTiming 0 0 (withEnd t) = withEnd t := by
    have hid : moveTime 0 = id := funext moveTime_zero
    unfold moveTiming
    rw [hid, Option.map_id]
    rfl
  intro id
  unfold spanAt
  rw [hsame, moveId_zero, hone]
  cases P.generate t id with
  | none => rfl
  | some span => simp only [Option.map_some, Int.add_zero]

theorem moved_iff {n : ℤ} {q : RecurrenceId → Prop} (h : ∀ id, q id → moveId n id = id)
    (id : RecurrenceId) : q (moveId n id) ↔ q id := by
  constructor
  · intro hq
    have hid : moveId n id = id := moveId_injective (h _ hq)
    rw [hid] at hq
    exact hq
  · intro hq
    rw [h id hq]
    exact hq

def place : RecurrenceId → ℤ
  | .day d => d
  | .instant s => s
  | .localTime s => s

def stride (n : ℤ) : RecurrenceId → ℤ
  | .day _ => n / secondsPerDay
  | .instant _ => n
  | .localTime _ => n

theorem place_moveId (n : ℤ) (id : RecurrenceId) :
    place (moveId n id) = place id + stride n id ∧ stride n (moveId n id) = stride n id := by
  cases id with
  | day d => exact ⟨rfl, rfl⟩
  | instant s => exact ⟨rfl, rfl⟩
  | localTime s => exact ⟨rfl, rfl⟩

theorem moveId_of_stride {n : ℤ} (h : stride n id = 0) : moveId n id = id := by
  cases id with
  | day d =>
    exact congrArg RecurrenceId.day
      (by rw [show n / secondsPerDay = 0 from h]; exact Int.add_zero d)
  | instant s =>
    exact congrArg RecurrenceId.instant (by rw [show n = 0 from h]; exact Int.add_zero s)
  | localTime s =>
    exact congrArg RecurrenceId.localTime (by rw [show n = 0 from h]; exact Int.add_zero s)

theorem place_iterate (n : ℤ) (id : RecurrenceId) (k : ℕ) :
    place ((moveId n)^[k] id) = place id + k * stride n id ∧
      stride n ((moveId n)^[k] id) = stride n id := by
  induction k with
  | zero => exact ⟨by simp, rfl⟩
  | succ k ih =>
    rw [Function.iterate_succ_apply']
    obtain ⟨hplace, hstride⟩ := place_moveId n ((moveId n)^[k] id)
    refine ⟨?_, hstride.trans ih.2⟩
    rw [hplace, ih.1, ih.2, Int.natCast_succ, Int.add_mul, Int.one_mul, Int.add_assoc]

theorem iterate_moveId_injective {n : ℤ} (h : moveId n id ≠ id) :
    Function.Injective fun k : ℕ => (moveId n)^[k] id := by
  intro j k hjk
  have hplace := congrArg place hjk
  rw [(place_iterate n id j).1, (place_iterate n id k).1] at hplace
  have hstride : stride n id ≠ 0 := fun hzero => h (moveId_of_stride hzero)
  have hmul : (j : ℤ) * stride n id = k * stride n id := by omega
  have hcast := Int.eq_of_mul_eq_mul_right hstride hmul
  omega

theorem stays_of_moved {n : ℤ} {l : List RecurrenceId} (h : ∀ id ∈ l, moveId n id ∈ l)
    (hid : id ∈ l) : moveId n id = id := by
  by_contra hmoves
  have hmem : ∀ k : ℕ, (moveId n)^[k] id ∈ {x | x ∈ l} := by
    intro k
    induction k with
    | zero => exact hid
    | succ k ih =>
      rw [Function.iterate_succ_apply']
      exact h _ ih
  exact Set.infinite_of_injective_forall_mem (iterate_moveId_injective hmoves) hmem
    (List.finite_toSet l)

/-- Where the form shows the series' own times, the edit keeps it. -/
theorem kept_of_own_times (hdoc : Documented P)
    (hrun : updateEvent P identity cal (g.request shown byStart byEnd) = .ok cal')
    (hmaster : cal.master = some m) (hown : AtOwnTimes shown m.timing)
    (hrule : RuleReadsBack P g m.timing)
    (hfollows : byStart = 0 ∧ byEnd = 0 ∨ Follows P m.timing byStart byEnd)
    (hnames : NamesStay P cal byStart) : SeriesKept P cal cal' byStart byEnd := by
  obtain ⟨m₁, m', dtstart, dtend, rrule, hm₁, hm', hstart, hend, hrrule, htiming, hover⟩ :=
    written hrun
  rw [hmaster, Option.some.injEq] at hm₁
  subst hm₁
  have hallDay : (g.request shown byStart byEnd).fields.allDay = none ∨
      (g.request shown byStart byEnd).fields.allDay = some shown.allDay := by
    cases g with
    | save form => exact .inr rfl
    | drag => exact .inl rfl
  have hsame : rrule = m.timing.rrule := by
    cases g with
    | save form =>
      have hback : editedRrule P m.timing.rrule (some form.rrule) = .ok m.timing.rrule := hrule
      exact Except.ok.inj (hrrule.symm.trans hback)
    | drag => exact (Except.ok.inj hrrule).symm
  have hmoved : m'.timing = moveTiming byStart byEnd (withEnd m.timing) := by
    rw [htiming, hsame]
    exact written_moved hdoc.utc hown hallDay hstart hend
  have hfollows : Follows P m.timing byStart byEnd := by
    rcases hfollows with ⟨rfl, rfl⟩ | hfollows
    · exact follows_zero hdoc.one_day
    · exact hfollows
  have hexcluded : excluded cal' = excluded cal := by
    unfold excluded
    rw [hmaster, hm', Option.map_some, Option.map_some, htiming]
  refine ⟨fun id => ?_, fun id => ?_, fun id => ?_⟩
  · unfold generatedAt
    rw [hmaster, hm']
    show spanAt P m'.timing _ = (spanAt P m.timing id).map _
    rw [hmoved]
    exact hfollows id
  · rw [hover]
    have hstays : ∀ x, (cal.override P x).isSome = true → moveId byStart x = x :=
      fun x hx => hnames x (.inl hx)
    cases ho : cal.override P id with
    | some c => rw [hstays id (by rw [ho]; rfl), ho]
    | none =>
      have hnone : ¬ (cal.override P (moveId byStart id)).isSome = true := by
        rw [moved_iff hstays id, ho]
        simp
      rw [Option.not_isSome_iff_eq_none.1 hnone]
  · rw [hexcluded]
    exact moved_iff (fun x hx => hnames x (.inr hx)) id

theorem editedTime_instant {allDay : Option Bool} {current dtstart written : Option ICalTime} {y : ℤ}
    (hday : isAllDay allDay dtstart = .ok false)
    (h : editedTime P allDay current dtstart (some (isoTime y)) = .ok written) :
    ∃ z, written = some (.timed y z) := by
  unfold editedTime overrideTime inExistingZone at h
  simp only [hday] at h
  split at h
  · cases h
    exact ⟨_, rfl⟩
  · cases h
    exact ⟨_, rfl⟩

theorem start_of_stamped {span : Span} {s : Instant} (h : stampedId span.start = .instant s) :
    span.start.toDatetime = s := by
  cases hstart : span.start with
  | date d =>
    rw [hstart] at h
    cases h
  | timed u z =>
    rw [hstart] at h
    cases h
    rfl

theorem namesStay_of_kept (hmaster : cal.master = some m) (hm' : cal'.master = some m')
    (hexdate : m'.timing.exdate = m.timing.exdate)
    (hover : ∀ id, cal'.override P id = cal.override P id)
    (hkept : SeriesKept P cal cal' byStart byEnd) : NamesStay P cal byStart := by
  have hexcluded : excluded cal' = excluded cal := by
    unfold excluded
    rw [hmaster, hm', Option.map_some, Option.map_some, hexdate]
  intro id hid
  rcases hid with hid | hid
  · -- the ids exceptions are stored for are among those the body's components carry
    have hmem : ∀ x, (cal.override P x).isSome = true ↔
        x ∈ (cal.vevents.filterMap (Component.recurrenceIdValue P)).filter
          fun x => (cal.override P x).isSome := by
      intro x
      rw [List.mem_filter, List.mem_filterMap]
      refine ⟨fun hx => ⟨?_, hx⟩, fun hx => hx.2⟩
      obtain ⟨c, hc⟩ := Option.isSome_iff_exists.1 hx
      exact ⟨c, override_mem hc, names_iff.1 (override_names hc)⟩
    refine stays_of_moved (fun x hx => ?_) ((hmem id).1 hid)
    rw [← hmem] at hx ⊢
    have hexception := hkept.exceptions x
    rw [hover] at hexception
    obtain ⟨c, hc⟩ := Option.isSome_iff_exists.1 hx
    rw [hc, Option.map_some] at hexception
    obtain ⟨c', hc', -⟩ := Option.map_eq_some_iff.1 hexception
    rw [hc']
    rfl
  · refine stays_of_moved (fun x hx => ?_) hid
    have hexdates := (hkept.exdates x).2 hx
    rw [hexcluded] at hexdates
    exact hexdates

/-- A series keeps its occurrences only where the form showed its own times. -/
theorem own_times_of_kept (hdoc : Documented P)
    (hrun : updateEvent P identity cal (g.request shown byStart byEnd) = .ok cal')
    (hmaster : cal.master = some m) (hrdate : m.timing.rdate = []) {s : Instant}
    {z : Option Zone} (hstart : m.timing.dtstart = some (.timed s z))
    (hfirst : (P.generate m.timing (.instant s)).isSome = true) {span : Span}
    (hspan : P.generate m.timing id = some span)
    (hshown : shown.dtstart = span.start.toDatetime) (htimed : shown.allDay = false)
    (hkept : SeriesKept P cal cal' byStart byEnd) :
    shown.dtstart = s ∧
      (∀ stop, m.timing.dtend = some stop → shown.dtend = stop.toDatetime) ∧
      NamesStay P cal byStart := by
  obtain ⟨m₁, m', dtstart, dtend, rrule, hm₁, hm', hdtstart, hdtend, -, htiming, hover⟩ :=
    written hrun
  rw [hmaster, Option.some.injEq] at hm₁
  subst hm₁
  have hday : ∀ (u : Instant) (y : Option Zone),
      isAllDay (g.request shown byStart byEnd).fields.allDay (some (.timed u y)) = .ok false := by
    intro u y
    cases g with
    | save form => exact congrArg Except.ok htimed
    | drag => rfl
  rw [hstart] at hdtstart
  obtain ⟨z₁, rfl⟩ := editedTime_instant (hday s z) hdtstart
  obtain ⟨z₂, rfl⟩ := editedTime_instant (hday _ z₁) hdtend
  have hnewstart : m'.timing.dtstart = some (.timed (shown.dtstart + byStart) z₁) := by rw [htiming]
  have hnewend : m'.timing.dtend = some (.timed (shown.dtend + byEnd) z₂) := by rw [htiming]
  have hnewrdate : m'.timing.rdate = [] := by rw [htiming]; exact hrdate
  -- the occurrence at DTSTART, before and after
  obtain ⟨span₀, hspan₀⟩ := Option.isSome_iff_exists.1 hfirst
  have hoccurrence := hkept.occurrences (.instant s)
  unfold generatedAt at hoccurrence
  rw [hmaster, hm'] at hoccurrence
  have hoccurrence : spanAt P m'.timing (.instant (s + byStart))
      = (spanAt P m.timing (.instant s)).map fun t => (t.1 + byStart, t.2 + byEnd) := hoccurrence
  unfold spanAt at hoccurrence
  rw [hspan₀, Option.map_some, Option.map_some] at hoccurrence
  obtain ⟨span₁, hspan₁, hends⟩ := Option.map_eq_some_iff.1 hoccurrence
  rw [Prod.mk.injEq] at hends
  have hat₁ : span₁.start.toDatetime = s + byStart :=
    start_of_stamped (P.generate_stamped _ _ _ hspan₁)
  have hlower : shown.dtstart + byStart ≤ s + byStart := by
    have hle := hdoc.not_before _ _ _ _ hnewrdate hnewstart hspan₁
    rw [hat₁] at hle
    exact hle
  have hupper : s ≤ shown.dtstart := by
    rw [hshown]
    exact hdoc.not_before _ _ _ _ hrdate hstart hspan
  have hsame : shown.dtstart = s := by
    have h : ∀ a b c : ℤ, a + c ≤ b + c → b ≤ a → a = b := by omega
    exact h _ _ _ hlower hupper
  refine ⟨hsame, fun stop hstop => ?_, ?_⟩
  · have hend₀ := hdoc.own_end _ _ _ _ hrdate hstart hstop hspan₀
    rw [hsame] at hnewstart
    have hend₁ := hdoc.own_end _ _ _ _ hnewrdate hnewstart hnewend hspan₁
    have hstop₁ : shown.dtend + byEnd = span₁.stop.toDatetime := hend₁.symm
    rw [hends.2, hend₀] at hstop₁
    exact (Int.add_left_inj _).1 hstop₁
  · have hexdate : m'.timing.exdate = m.timing.exdate := by rw [htiming]
    exact namesStay_of_kept hmaster hm' hexdate hover hkept

/-- **A change for all events keeps the series when it is made at the series' own times**,
with a rule that reads back and follows the move and nothing left behind: it generates the
occurrences it did, each moved by what the person moved. Of a timed series without RDATEs that
generates its DTSTART no other occurrence can be opened without breaking it. -/
theorem series_kept_at_its_own_times (hdoc : Documented P)
    (hrun : updateEvent P identity cal (g.request shown byStart byEnd) = .ok cal')
    (hmaster : cal.master = some m) :
    (AtOwnTimes shown m.timing → RuleReadsBack P g m.timing →
        (byStart = 0 ∧ byEnd = 0 ∨ Follows P m.timing byStart byEnd) →
        NamesStay P cal byStart → SeriesKept P cal cal' byStart byEnd) ∧
      ∀ (s : Instant) (z : Option Zone) (id : RecurrenceId) (span : Span),
        m.timing.rdate = [] → m.timing.dtstart = some (.timed s z) →
        (P.generate m.timing (.instant s)).isSome = true → P.generate m.timing id = some span →
        shown.dtstart = span.start.toDatetime → shown.allDay = false →
        SeriesKept P cal cal' byStart byEnd →
          shown.dtstart = s ∧
            (∀ stop, m.timing.dtend = some stop → shown.dtend = stop.toDatetime) ∧
            NamesStay P cal byStart :=
  ⟨kept_of_own_times hdoc hrun hmaster,
    fun _ _ _ _ hrdate hstart hfirst hspan hshown htimed hkept =>
      own_times_of_kept hdoc hrun hmaster hrdate hstart hfirst hspan hshown htimed hkept⟩

/-! ### The stand-up, renamed -/

theorem utcPlatform_generate {start : ICalTime} {span : Span} (hstart : t.dtstart = some start)
    (h : utcPlatform.generate t id = some span) :
    ∃ first z u, start = .timed first z ∧ id = .instant u ∧ u ∈ startsOf t first ∧
      span = ⟨.timed u z,
        .timed (u + ((t.dtend.map ICalTime.toDatetime).getD first - first)) z⟩ := by
  cases start with
  | date d => simp [utcPlatform, hstart] at h
  | timed first z =>
    cases id with
    | day d | localTime u => simp [utcPlatform, hstart] at h
    | instant u =>
      simp only [utcPlatform, hstart, Option.ite_none_right_eq_some, Option.some.injEq] at h
      exact ⟨first, z, u, rfl, rfl, h.1, h.2.symm⟩

theorem utcPlatform_documented : Documented utcPlatform where
  utc _ := rfl
  one_day t id := by
    unfold withEnd
    split
    · rename_i d hstart _ _
      simp [utcPlatform, hstart]
    · rfl
  not_before := by
    intro t id span start hrdate hstart hspan
    obtain ⟨first, z, u, rfl, rfl, hu, rfl⟩ := utcPlatform_generate hstart hspan
    have hmem := List.mem_of_mem_filter hu
    rw [hrdate, List.map_nil, List.append_nil] at hmem
    have hday : (0 : ℤ) < secondsPerDay := by decide
    show first ≤ u
    split at hmem
    · rw [List.mem_singleton.1 hmem]
    · have hcases : u = first ∨ u = first + secondsPerDay ∨ u = first + 2 * secondsPerDay := by
        simpa using hmem
      have hle : ∀ a b c : ℤ, 0 < c → b = a ∨ b = a + c ∨ b = a + 2 * c → a ≤ b := by omega
      exact hle first u secondsPerDay hday hcases
  own_end := by
    intro t span start stop hrdate hstart hstop hspan
    obtain ⟨first, z, u, rfl, hid, hu, rfl⟩ := utcPlatform_generate hstart hspan
    cases hid
    show first + ((t.dtend.map ICalTime.toDatetime).getD first - first) = stop.toDatetime
    rw [hstop, Option.map_some, Option.getD_some]
    have hcancel : ∀ a b : ℤ, a + (b - a) = b := by omega
    exact hcancel first stop.toDatetime

/-- The form as it opens on an occurrence, with another title typed in. -/
def planning : Gesture :=
  .save
    { summary := "Planning", location := "", description := "", rrule := "FREQ=DAILY;COUNT=3"
      reminders := [], transparency := .opaqueTime }

/-- The series saved for all events from the form opened at `start`. -/
def planningFrom (start : Instant) : Calendar :=
  { method := none
    vevents := [{ standup with
      summary := some "Planning"
      sequence := some 1
      timing :=
        { standup.timing with
          dtstart := some (.timed start (some "UTC"))
          dtend := some (.timed (start + 3600) (some "UTC")) }
      transp := some .opaqueTime }] }

theorem renamed_from_first_day_kept :
    SeriesKept utcPlatform standups (planningFrom 32400) 0 0 := by
  have hrun : updateEvent utcPlatform none standups
      (planning.request (standupAt 32400) 0 0) = .ok (planningFrom 32400) := rfl
  have hmaster : standups.master = some standup := rfl
  refine (series_kept_at_its_own_times utcPlatform_documented hrun hmaster).1 ?_ rfl
    (.inl ⟨rfl, rfl⟩) fun id _ => moveId_zero
  refine ⟨.timed 32400 (some "UTC"), .timed 36000 (some "UTC"), rfl, rfl, fun x y hxy => ?_⟩
  rcases List.mem_cons.1 hxy with h | h
  · cases h
    exact ⟨rfl, rfl, .inr rfl⟩
  · cases List.mem_singleton.1 h
    exact ⟨rfl, rfl, .inr rfl⟩

/-- Renamed from the second day, the stand-up loses its first day. -/
theorem renamed_from_second_day_loses_first :
    standups.shownAt utcPlatform (.instant 118800) = some (standupAt 118800) ∧
      updateEvent utcPlatform none standups (planning.request (standupAt 118800) 0 0)
        = .ok (planningFrom 118800) ∧
      generatedAt utcPlatform standups (.instant 32400) = some (32400, 36000) ∧
      generatedAt utcPlatform (planningFrom 118800) (.instant 32400) = none ∧
      ¬ SeriesKept utcPlatform standups (planningFrom 118800) 0 0 := by
  refine ⟨rfl, rfl, rfl, rfl, fun hkept => ?_⟩
  have hfirst := hkept.occurrences (.instant 32400)
  cases hfirst

end MailVerdict.Analysis.SeriesEdits
