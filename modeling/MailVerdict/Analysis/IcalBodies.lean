import MailVerdict.Model.CalendarEvents
import MailVerdict.Computation.Failing

/-!
# What a write to a body does to its expansion

Every operation of `calendar/ical.py` that edits a body writes to one component: the
override of one occurrence (`onException`) or the master (`onMaster`). The first
section says what each of the two leaves behind, the second which of them an endpoint
makes, the third what the expansion of the body is afterwards: an occurrence the written
component does not name, before or after, is shown as it was.
-/

namespace MailVerdict.Analysis.IcalBodies

open MailVerdict.Computation Failing Model.Ical Model.CalendarEvents

variable {P : Platform} {cal cal' : Calendar} {id other : RecurrenceId} {c c' m : Component}

/-! ### Reading -/

theorem recurrenceIdValue_eq_none :
    c.recurrenceIdValue P = none ↔ c.recurrenceId = none := by
  exact Option.map_eq_none_iff

theorem names_iff : c.names P id = true ↔ c.recurrenceIdValue P = some id :=
  decide_eq_true_iff

theorem recurrenceId_of_names (h : c.names P id = true) : c.recurrenceId.isNone = false := by
  cases hr : c.recurrenceId with
  | none =>
    have hnone : c.recurrenceIdValue P = none := recurrenceIdValue_eq_none.2 hr
    rw [names_iff.1 h] at hnone
    cases hnone
  | some r => rfl

theorem override_names (h : cal.override P id = some c) : c.names P id = true :=
  List.find?_some (p := Component.names P id) h

theorem master_recurrenceId (h : cal.master = some m) : m.recurrenceId = none := by
  have hm := List.find?_some (p := fun c : Component => c.recurrenceId.isNone) h
  exact Option.isNone_iff_eq_none.1 hm

theorem generated_normal {t : Timing} {span : Span} (h : P.generate t id = some span) :
    ∀ s, id ≠ .localTime s := by
  intro s hs
  have hid := P.generate_stamped t id span h
  rw [hs] at hid
  cases hstart : span.start with
  | date d | timed t z =>
    rw [hstart] at hid
    cases hid

theorem clonedFor_names (hid : ∀ s, id ≠ .localTime s) : (m.clonedFor id).names P id = true := by
  rw [names_iff]
  cases id with
  | day d => rfl
  | instant s => rfl
  | localTime s => exact absurd rfl (hid s)

def onClient (c : Component) : Component :=
  { c with organizer := c.organizer.map fun o => { o with scheduleAgent := some "CLIENT" } }

theorem fixed_vevents : (fixed cal).vevents = cal.vevents.map onClient := rfl

/-! ### The two writes -/

def exceptionFor (P : Platform) (cal : Calendar) (id : RecurrenceId) : Option Component :=
  match cal.override P id with
  | some c => some c
  | none => cal.master.map fun m => m.clonedFor id

theorem exceptionFor_stored (h : cal.override P id = some c) : exceptionFor P cal id = some c := by
  unfold exceptionFor
  rw [h]

theorem exceptionFor_cloned (h : cal.override P id = none) (hm : cal.master = some m) :
    exceptionFor P cal id = some (m.clonedFor id) := by
  unfold exceptionFor
  rw [h, hm]
  rfl

theorem exceptionFor_cases (h : exceptionFor P cal id = some c) :
    cal.override P id = some c ∨
      cal.override P id = none ∧ ∃ m, cal.master = some m ∧ c = m.clonedFor id := by
  unfold exceptionFor at h
  cases ho : cal.override P id with
  | some o =>
    simp only [ho] at h
    exact .inl h
  | none =>
    simp only [ho] at h
    obtain ⟨m, hm, rfl⟩ := Option.map_eq_some_iff.1 h
    exact .inr ⟨rfl, m, hm, rfl⟩

theorem onException_cases {change : Component → Except EditError Component}
    (h : cal.onException P id change = .ok cal') :
    (∃ c c', cal.override P id = some c ∧ change c = .ok c' ∧
      cal' = cal.setFirst (Component.names P id) c') ∨
    ∃ m c', cal.override P id = none ∧ cal.master = some m ∧
      change (m.clonedFor id) = .ok c' ∧ cal' = { cal with vevents := cal.vevents ++ [c'] } := by
  unfold Calendar.onException at h
  cases ho : cal.override P id with
  | some c =>
    simp only [ho] at h
    obtain ⟨c', hc', h⟩ := bind_ok h
    cases h
    exact .inl ⟨c, c', rfl, hc', rfl⟩
  | none =>
    simp only [ho] at h
    cases hm : cal.master with
    | none =>
      simp only [hm] at h
      cases h
    | some m =>
      simp only [hm] at h
      obtain ⟨c', hc', h⟩ := bind_ok h
      cases h
      exact .inr ⟨m, c', rfl, rfl, hc', rfl⟩

theorem onMaster_cases {missing : String} {change : Component → Except EditError Component}
    (h : cal.onMaster missing change = .ok cal') :
    ∃ m m', cal.master = some m ∧ change m = .ok m' ∧
      cal' = cal.setFirst (fun c => c.recurrenceId.isNone) m' := by
  unfold Calendar.onMaster at h
  cases hm : cal.master with
  | none =>
    simp only [hm] at h
    cases h
  | some m =>
    simp only [hm] at h
    obtain ⟨m', hm', h⟩ := bind_ok h
    cases h
    exact ⟨m, m', rfl, hm', rfl⟩

theorem onException_all {change : Component → Except EditError Component} {Q : Component → Prop}
    (h : cal.onException P id change = .ok cal') (hold : ∀ x ∈ cal.vevents, Q x)
    (hnew : ∀ c c', exceptionFor P cal id = some c → change c = .ok c' → Q c') :
    ∀ x ∈ cal'.vevents, Q x := by
  intro x hx
  rcases onException_cases h with ⟨c, c', ho, hc', rfl⟩ | ⟨m, c', ho, hm, hc', rfl⟩
  · rcases mem_replaceFirst hx with rfl | hx
    · exact hnew c _ (exceptionFor_stored ho) hc'
    · exact hold x hx
  · rcases List.mem_append.1 hx with hx | hx
    · exact hold x hx
    · rw [List.mem_singleton.1 hx]
      exact hnew (m.clonedFor id) c' (exceptionFor_cloned ho hm) hc'

theorem onMaster_all {missing : String} {change : Component → Except EditError Component}
    {Q : Component → Prop} (h : cal.onMaster missing change = .ok cal')
    (hold : ∀ x ∈ cal.vevents, Q x)
    (hnew : ∀ m m', cal.master = some m → change m = .ok m' → Q m') :
    ∀ x ∈ cal'.vevents, Q x := by
  intro x hx
  obtain ⟨m, m', hm, hm', rfl⟩ := onMaster_cases h
  rcases mem_replaceFirst hx with rfl | hx
  · exact hnew m _ hm hm'
  · exact hold x hx

theorem master_mem (h : cal.master = some m) : m ∈ cal.vevents := List.mem_of_find?_eq_some h

theorem override_mem (h : cal.override P id = some c) : c ∈ cal.vevents :=
  List.mem_of_find?_eq_some h

theorem parse_master {exceptions : List Component}
    (h : parseMasterAndExceptions cal = some (m, exceptions)) :
    cal.master = some m ∧ exceptions = cal.vevents.filter fun c => c.recurrenceId.isSome := by
  obtain ⟨m', hm, hparse⟩ := Option.bind_eq_some_iff.1 h
  split at hparse
  · cases hparse
    exact ⟨hm, rfl⟩
  · cases hparse

/-! ### The endpoints -/

theorem updateEvent_cases {identity : Option String} {req : EventUpdateRequest}
    (h : updateEvent P identity cal req = .ok cal') :
    ∃ m, cal.master = some m ∧
      ((∃ id, req.scope = some .this ∧ req.recurrenceId = some id ∧
          editOccurrence P cal id req.fields (bumpSequence (organizes P identity m) m) = .ok cal') ∨
        (req.scope ≠ some .this ∧ req.recurrenceId = none ∧
          replaceMasterFields P cal req.fields (bumpSequence (organizes P identity m) m)
            = .ok cal')) := by
  unfold updateEvent at h
  split at h
  · cases h
  split at h
  · cases h
  split at h
  · cases h
  split at h
  · cases h
  rename_i hscope
  split at h
  · cases h
  rename_i m exceptions hparse
  refine ⟨m, (parse_master hparse).1, ?_⟩
  by_cases hthis : req.scope = some .this
  · simp only [if_pos hthis] at h
    cases hid : req.recurrenceId with
    | none =>
      simp only [hid] at h
      cases h
    | some id =>
      simp only [hid] at h
      exact .inl ⟨id, hthis, rfl, h⟩
  · simp only [if_neg hthis] at h
    have hid : req.recurrenceId = none := by
      cases hid : req.recurrenceId with
      | none => rfl
      | some id =>
        rw [hid] at hscope
        simp [hthis] at hscope
    exact .inr ⟨hthis, hid, h⟩

theorem deleteOccurrence_cases {identity : Option String}
    (h : deleteOccurrence P identity cal id = .ok cal') :
    ∃ m, cal.master = some m ∧
      markCancelled P cal (some id) (bumpSequence (organizesIlike P identity m) m) = .ok cal' := by
  unfold deleteOccurrence at h
  split at h
  · cases h
  rename_i m exceptions hparse
  exact ⟨m, (parse_master hparse).1, h⟩

/-! ### The expansion afterwards -/

theorem shownAt_congr (hover : cal'.override P id = cal.override P id)
    (hmaster : cal'.master = cal.master) : cal'.shownAt P id = cal.shownAt P id := by
  unfold Calendar.shownAt
  rw [hover, hmaster]

theorem shownAt_override (h : cal.override P id = some c) :
    cal.shownAt P id = parseComponent P c := by
  unfold Calendar.shownAt
  rw [h]

theorem shownAt_generated {span : Span} (hover : cal.override P id = none)
    (hmaster : cal.master = some m) (hspan : P.generate m.timing id = some span) :
    cal.shownAt P id = parseComponent P (m.occurrence span) := by
  unfold Calendar.shownAt
  rw [hover, hmaster]
  show (P.generate m.timing id).bind _ = _
  rw [hspan]
  rfl

section Exception

variable {change : Component → Except EditError Component}
  (hstays : ∀ c c', exceptionFor P cal id = some c → change c = .ok c' → c'.names P id = true)

include hstays

theorem override_onException (h : cal.onException P id change = .ok cal') :
    ∃ c c', exceptionFor P cal id = some c ∧ change c = .ok c' ∧
      cal'.override P id = some c' := by
  rcases onException_cases h with ⟨c, c', ho, hc', rfl⟩ | ⟨m, c', ho, hm, hc', rfl⟩
  · have htarget := exceptionFor_stored ho
    refine ⟨c, c', htarget, hc', ?_⟩
    exact find?_replaceFirst ho (hstays c c' htarget hc')
  · have htarget := exceptionFor_cloned ho hm
    refine ⟨m.clonedFor id, c', htarget, hc', ?_⟩
    have hnames := hstays _ _ htarget hc'
    show (cal.vevents ++ [c']).find? (Component.names P id) = some c'
    have hnone : cal.vevents.find? (Component.names P id) = none := ho
    rw [List.find?_append, hnone, Option.none_or, List.find?_cons_of_pos hnames]

theorem find?_onException (h : cal.onException P id change = .ok cal')
    {q : Component → Bool} (hq : ∀ c, c.names P id = true → q c = false) :
    cal'.vevents.find? q = cal.vevents.find? q := by
  rcases onException_cases h with ⟨c, c', ho, hc', rfl⟩ | ⟨m, c', ho, hm, hc', rfl⟩
  · have htarget := exceptionFor_stored ho
    exact find?_replaceFirst_of_not ho (hq c (override_names ho))
      (hq c' (hstays c c' htarget hc'))
  · have htarget := exceptionFor_cloned ho hm
    have hmiss : q c' = false := hq c' (hstays _ _ htarget hc')
    show (cal.vevents ++ [c']).find? q = _
    rw [List.find?_append, List.find?_cons_of_neg (by rw [hmiss]; exact Bool.false_ne_true),
      List.find?_nil, Option.or_none]

theorem override_onException_of_ne (h : cal.onException P id change = .ok cal')
    (hne : other ≠ id) : cal'.override P other = cal.override P other := by
  refine find?_onException hstays h fun c hc => ?_
  have hid := names_iff.1 hc
  refine decide_eq_false fun hother => hne ?_
  rw [hid, Option.some.injEq] at hother
  exact hother.symm

theorem master_onException (h : cal.onException P id change = .ok cal') :
    cal'.master = cal.master :=
  find?_onException hstays h fun _ hc => recurrenceId_of_names hc

theorem shownAt_onException_of_ne (h : cal.onException P id change = .ok cal')
    (hne : other ≠ id) : cal'.shownAt P other = cal.shownAt P other :=
  shownAt_congr (override_onException_of_ne hstays h hne) (master_onException hstays h)

end Exception

section Master

variable {missing : String} {change : Component → Except EditError Component}
  (hstays : ∀ c c', cal.master = some c → change c = .ok c' → c'.recurrenceId = none)

include hstays

theorem override_onMaster (h : cal.onMaster missing change = .ok cal') :
    cal'.override P id = cal.override P id := by
  obtain ⟨m, m', hm, hm', rfl⟩ := onMaster_cases h
  have hmiss : ∀ c : Component, c.recurrenceId = none → c.names P id = false := by
    intro c hc
    refine decide_eq_false fun hid => ?_
    rw [recurrenceIdValue_eq_none.2 hc] at hid
    cases hid
  exact find?_replaceFirst_of_not hm (hmiss m (master_recurrenceId hm))
    (hmiss m' (hstays m m' hm hm'))

theorem master_onMaster (h : cal.onMaster missing change = .ok cal') :
    ∃ m m', cal.master = some m ∧ change m = .ok m' ∧ cal'.master = some m' := by
  obtain ⟨m, m', hm, hm', rfl⟩ := onMaster_cases h
  refine ⟨m, m', hm, hm', ?_⟩
  exact find?_replaceFirst hm (Option.isNone_iff_eq_none.2 (hstays m m' hm hm'))

end Master

/-! ### A platform to run the model on -/

def threeDays : RRule := ⟨[("FREQ", ["DAILY"]), ("COUNT", ["3"])]⟩

/-- The starts of a timed series: DTSTART, the two days after it under `threeDays`, and
the RDATEs, less the EXDATEs. -/
def startsOf (t : Timing) (first : Instant) : List Instant :=
  ((if t.rrule = [] then [first]
    else [first, first + secondsPerDay, first + 2 * secondsPerDay])
      ++ t.rdate.map ICalTime.toDatetime).filter
    fun s => s ∉ t.exdate.map ICalTime.toDatetime

/-- Every zone keeps UTC, texts are lower case, and the only rule is `threeDays`. -/
def utcPlatform : Platform where
  wall := fun _ s => s
  resolve := fun _ s => s
  lower := fun s => s
  parseRrule := fun text => if text = "FREQ=DAILY;COUNT=3" then some threeDays else none
  generate := fun t id =>
    match t.dtstart, id with
    | some (.timed first z), .instant s =>
      if s ∈ startsOf t first then
        some ⟨.timed s z, .timed (s + ((t.dtend.map ICalTime.toDatetime).getD first - first)) z⟩
      else none
    | _, _ => none
  generate_stamped := by
    intro t id span h
    split at h
    · split at h
      · cases h
        rfl
      · cases h
    · cases h

end MailVerdict.Analysis.IcalBodies
