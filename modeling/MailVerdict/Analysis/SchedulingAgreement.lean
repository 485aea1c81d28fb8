import MailVerdict.Analysis.ReplyIntake

/-!
# Organizer and attendee after a scheduling message

The organizer's endpoint mails the whole body it has written, as a REQUEST or a CANCEL;
the attendee's import reads the first component of that body as what the message is
about. A REQUEST that begins with the master is taken over whole. A CANCEL of one
occurrence begins with the master too, unless the exception happens to stand first, and
then cancels the whole series at the attendee's.
-/

namespace MailVerdict.Analysis.SchedulingAgreement

open MailVerdict.Computation Model.Ical Model.Invitations
open Model.CalendarEvents Analysis.IcalBodies
open Analysis.OccurrenceEdits Analysis.ReplyIntake

/-- What the organizer does: a PATCH, or a DELETE of one occurrence or of the event. -/
inductive OrganizerOp
  | update (req : EventUpdateRequest)
  | cancelOccurrence (id : RecurrenceId)
  | cancelAll

def slot (e : ParsedEvent) : Instant × Instant × EventStatus := (e.dtstart, e.dtend, e.status)

section

variable (P : Platform)

/-- The calendar is the organizer's and there is someone to tell. -/
def sends (organizer : Bool) (m : Component) : Bool := organizer && !m.attendees.isEmpty

/-- The body stored after the operation (none: the object is deleted) and the message
mailed for it.

SOURCE: api/calendar_events.py:675-740, 790-814 -/
def OrganizerOp.perform (identity : Option String) (org : Calendar) :
    OrganizerOp → Option (Option Calendar × Calendar)
  | update req =>
    (updateEvent P identity org req).toOption.bind fun stored =>
      org.master.bind fun m =>
        if sends (organizes P identity m) m then
          some (some stored, withMethod stored "REQUEST")
        else none
  | cancelOccurrence id =>
    (deleteOccurrence P identity org id).toOption.bind fun stored =>
      org.master.bind fun m =>
        if sends (organizesIlike P identity m) m then
          some (some stored, withMethod stored "CANCEL")
        else none
  | cancelAll =>
    (markCancelled P org none true).toOption.bind fun cancelled =>
      org.master.bind fun m =>
        if sends (organizesIlike P identity m) m then
          some (none, withMethod cancelled "CANCEL")
        else none

/-- Both show the same occurrences with the same start, end and status; an event the
organizer has deleted is agreed on when every occurrence of it is cancelled. -/
def Agree (org : Option Calendar) (att : Calendar) : Prop :=
  match org with
  | some o => ∀ id, (att.shownAt P id).map slot = (o.shownAt P id).map slot
  | none => ∀ id e, att.shownAt P id = some e → e.status = .cancelled

/-- The message is read as what it was sent for. A REQUEST begins with the master, or the
exception edited; the CANCEL of one occurrence with its exception, and the attendee's stands where
the occurrence does; the CANCEL of the event with the master, and the attendee holds no exception
that is not cancelled. -/
def ReadAsMeant (org att : Calendar) : OrganizerOp → Prop
  | .update req =>
    ∃ c, org.vevents.head? = some c ∧
      (c.recurrenceId = none ∨
        ∃ id, req.scope = some .this ∧ req.recurrenceId = some id ∧ c.names P id = true ∧
          (OccurrenceOp.edit req.fields true).IdStays P c)
  | .cancelOccurrence id =>
    (∃ c, org.vevents.head? = some c ∧ c.names P id = true) ∧
      (att.override P id = none → ∀ m, att.master = some m →
        (parseComponent P (m.clonedFor id)).map timesOf = (att.shownAt P id).map timesOf)
  | .cancelAll =>
    (∃ c, org.vevents.head? = some c ∧ c.recurrenceId = none) ∧
      ∀ id c, att.override P id = some c → c.status = some .cancelled

end

variable {P : Platform} {identity : Option String} {org att att' cal cal' : Calendar}
  {id : RecurrenceId} {c c' m : Component}

/-! ### The body a REQUEST is stored as -/

theorem slot_onClient : (parseComponent P (onClient c)).map slot = (parseComponent P c).map slot := by
  show (c.timing.dtstart.map _).map slot = (c.timing.dtstart.map _).map slot
  rw [Option.map_map, Option.map_map]
  rfl

theorem fixed_slot : ((fixed cal).shownAt P id).map slot = (cal.shownAt P id).map slot := by
  have hover : (fixed cal).override P id = (cal.override P id).map onClient := by
    unfold Calendar.override
    rw [fixed_vevents, List.find?_map]
    rfl
  have hmaster : (fixed cal).master = cal.master.map onClient := by
    unfold Calendar.master
    rw [fixed_vevents, List.find?_map]
    rfl
  unfold Calendar.shownAt
  rw [hover, hmaster]
  cases cal.override P id with
  | some c => exact slot_onClient
  | none =>
    cases cal.master with
    | none => rfl
    | some m =>
      show ((P.generate m.timing id).bind _).map slot = ((P.generate m.timing id).bind _).map slot
      cases P.generate m.timing id with
      | none => rfl
      | some span => exact slot_onClient (c := m.occurrence span)

/-! ### What comes first in a written body -/

theorem onException_head {change : Component → Except EditError Component}
    (h : cal.onException P id change = .ok cal') (hhead : cal.vevents.head? = some c) :
    (c.names P id = false → cal'.vevents.head? = some c) ∧
      (c.names P id = true → ∃ c', change c = .ok c' ∧ cal'.vevents.head? = some c') := by
  rcases onException_cases h with ⟨e, e', ho, he', rfl⟩ | ⟨m, e', ho, hm, he', rfl⟩
  · have hfirst : (cal.setFirst (Component.names P id) e').vevents.head?
        = some (if c.names P id then e' else c) := by
      show (replaceFirst _ e' cal.vevents).head? = _
      rw [head?_replaceFirst, hhead, Option.map_some]
    refine ⟨fun hc => ?_, fun hc => ?_⟩
    · rw [hfirst, hc]
      rfl
    · have hec : e = c := by
        have hfound : cal.override P id = some c := find?_of_head? hhead hc
        rw [ho, Option.some.injEq] at hfound
        exact hfound
      rw [hec] at he'
      rw [hfirst, if_pos hc]
      exact ⟨e', he', rfl⟩
  · refine ⟨fun _ => ?_, fun hc => ?_⟩
    · show (cal.vevents ++ [e']).head? = some c
      rw [List.head?_append, hhead, Option.some_or]
    · have hfound : cal.override P id = some c := find?_of_head? hhead hc
      rw [ho] at hfound
      cases hfound

theorem onMaster_head {missing : String} {change : Component → Except EditError Component}
    (h : cal.onMaster missing change = .ok cal') (hhead : cal.vevents.head? = some c)
    (hc : c.recurrenceId = none) :
    ∃ c', change c = .ok c' ∧ cal'.vevents.head? = some c' := by
  obtain ⟨m, m', hm, hm', rfl⟩ := onMaster_cases h
  have hnone : c.recurrenceId.isNone = true := Option.isNone_iff_eq_none.2 hc
  have hmc : m = c := by
    have hfound : cal.master = some c := find?_of_head? hhead hnone
    rw [hm, Option.some.injEq] at hfound
    exact hfound
  rw [hmc] at hm'
  refine ⟨m', hm', ?_⟩
  show (replaceFirst _ m' cal.vevents).head? = some m'
  rw [head?_replaceFirst, hhead, Option.map_some, if_pos hnone]

/-! ### What the attendee stores -/

theorem parse_mailed {method : String} (hhead : cal.vevents.head? = some c) :
    parseItipMessage (withMethod cal method) = some ⟨method, c⟩ := by
  cases hv : cal.vevents with
  | nil =>
    rw [hv] at hhead
    cases hhead
  | cons a l =>
    rw [hv, List.head?_cons, Option.some.injEq] at hhead
    subst hhead
    unfold parseItipMessage withMethod
    rw [hv]

theorem import_request {inv : ParsedInvitation} (hhead : cal.vevents.head? = some c)
    (hparse : parseItipMessage (withMethod cal "REQUEST") = some inv)
    (himport : importInto P att (withMethod cal "REQUEST") inv = .ok att') :
    (c.recurrenceIdValue P = none → att' = fixed cal) ∧
      ∀ id, c.recurrenceIdValue P = some id → mergeException P att (fixed cal) id = .ok att' := by
  rw [parse_mailed hhead, Option.some.injEq] at hparse
  subst hparse
  unfold importInto at himport
  split at himport
  · cases himport
  · rw [if_neg (by simp)] at himport
    refine ⟨fun hnone => ?_, fun id hid => ?_⟩
    · simp only [hnone] at himport
      cases himport
      rfl
    · simp only [hid] at himport
      exact himport

theorem import_cancel {inv : ParsedInvitation} (hhead : cal.vevents.head? = some c)
    (hparse : parseItipMessage (withMethod cal "CANCEL") = some inv)
    (himport : importInto P att (withMethod cal "CANCEL") inv = .ok att') :
    markCancelled P att (c.recurrenceIdValue P) true = .ok att' := by
  rw [parse_mailed hhead, Option.some.injEq] at hparse
  subst hparse
  unfold importInto importRefused at himport
  rw [if_neg (by simp), if_pos rfl] at himport
  exact himport

/-- A merged exception shows its own slot and moves no other. -/
theorem merge_shows (h : mergeException P att (fixed cal) id = .ok att')
    (hhead : cal.vevents.head? = some c) (hnames : c.names P id = true) :
    (∀ other, other ≠ id → att'.shownAt P other = att.shownAt P other) ∧
      (att'.shownAt P id).map slot = (parseComponent P c).map slot := by
  have hfirst : (fixed cal).vevents.head? = some (onClient c) := by
    rw [fixed_vevents, List.head?_map, hhead, Option.map_some]
  unfold mergeException at h
  cases hv : (fixed cal).vevents with
  | nil =>
    rw [hv] at hfirst
    cases hfirst
  | cons a l =>
    rw [hv, List.head?_cons, Option.some.injEq] at hfirst
    subst hfirst
    simp only [hv] at h
    cases h
    -- whoever looks for something else passes over what is filtered out and what is added
    have hpass : ∀ q : Component → Bool, (∀ x, x.names P id = true → q x = false) →
        ((att.vevents.filter fun e => !Component.names P id e) ++ [onClient c]).find? q
          = att.vevents.find? q := by
      intro q hq
      have hadded : q (onClient c) = false := hq _ hnames
      rw [List.find?_append, List.find?_filter, List.find?_cons_of_neg (by rw [hadded]; simp),
        List.find?_nil, Option.or_none]
      congr 1
      funext x
      cases hx : x.names P id with
      | true => simp [hq x hx]
      | false => simp
    refine ⟨fun other hne => shownAt_congr ?_ ?_, ?_⟩
    · refine hpass _ fun x hx => decide_eq_false fun hother => hne ?_
      rw [names_iff.1 hx, Option.some.injEq] at hother
      exact hother.symm
    · exact hpass _ fun x hx => recurrenceId_of_names hx
    · have hover : ({ att with vevents := (att.vevents.filter fun e => !Component.names P id e)
          ++ [onClient c] } : Calendar).override P id = some (onClient c) := by
        unfold Calendar.override
        have hnone : (att.vevents.filter fun e => !Component.names P id e).find?
            (Component.names P id) = none := by
          rw [List.find?_filter, List.find?_eq_none]
          intro x _
          simp
        rw [List.find?_append, hnone, Option.none_or]
        exact List.find?_cons_of_pos hnames
      rw [shownAt_override hover]
      exact slot_onClient

/-! ### The two kinds of message -/

theorem request_whole {inv : ParsedInvitation} (hhead : cal.vevents.head? = some c)
    (hc : c.recurrenceId = none)
    (hparse : parseItipMessage (withMethod cal "REQUEST") = some inv)
    (himport : importInto P att (withMethod cal "REQUEST") inv = .ok att') :
    Agree P (some cal) att' := by
  intro id
  rw [(import_request hhead hparse himport).1 (recurrenceIdValue_eq_none.2 hc)]
  exact fixed_slot

theorem request_merged {inv : ParsedInvitation} (hagree : Agree P (some cal) att)
    (hothers : ∀ other, other ≠ id → cal'.shownAt P other = cal.shownAt P other)
    (hhead : cal'.vevents.head? = some c) (hnames : c.names P id = true)
    (hparse : parseItipMessage (withMethod cal' "REQUEST") = some inv)
    (himport : importInto P att (withMethod cal' "REQUEST") inv = .ok att') :
    Agree P (some cal') att' := by
  have hmerge := (import_request hhead hparse himport).2 id (names_iff.1 hnames)
  obtain ⟨hatt, hat⟩ := merge_shows hmerge hhead hnames
  have hover : cal'.override P id = some c := find?_of_head? hhead hnames
  intro other
  by_cases hne : other = id
  · rw [hne, hat, shownAt_override hover]
  · rw [hatt other hne, hothers other hne]
    exact hagree other

def ends (e : ParsedEvent) : Instant × Instant := (e.dtstart, e.dtend)

theorem ends_of_slot {x y : Option ParsedEvent} (h : x.map slot = y.map slot) :
    x.map ends = y.map ends := by
  have hcomp : ∀ z : Option ParsedEvent,
      z.map ends = (z.map slot).map fun s => (s.1, s.2.1) := by
    intro z
    rw [Option.map_map]
    rfl
  rw [hcomp x, hcomp y, h]

theorem ends_of_timesOf {x y : Option ParsedEvent} (h : x.map timesOf = y.map timesOf) :
    x.map ends = y.map ends := by
  have hcomp : ∀ z : Option ParsedEvent,
      z.map ends = (z.map timesOf).map fun s => (s.1, s.2.1) := by
    intro z
    rw [Option.map_map]
    rfl
  rw [hcomp x, hcomp y, h]

theorem slot_cancelled : (parseComponent P (c.cancelled true)).map slot
    = ((parseComponent P c).map ends).map fun t => (t.1, t.2, EventStatus.cancelled) := by
  show (c.timing.dtstart.map _).map slot = ((c.timing.dtstart.map _).map ends).map _
  rw [Option.map_map, Option.map_map, Option.map_map]
  rfl

theorem cancel_shows (hnormal : ∀ s, id ≠ .localTime s)
    (h : markCancelled P cal (some id) true = .ok cal') :
    (∀ other, other ≠ id → cal'.shownAt P other = cal.shownAt P other) ∧
      ∃ x, exceptionFor P cal id = some x ∧ (cal'.shownAt P id).map slot
        = ((parseComponent P x).map ends).map fun t => (t.1, t.2, EventStatus.cancelled) := by
  have hid : ∀ e, cal.override P id = some e → (OccurrenceOp.cancel true).IdStays P e :=
    fun _ _ => rfl
  have hstays : ∀ x x', exceptionFor P cal id = some x →
      (OccurrenceOp.cancel true).change P x = .ok x' → x'.names P id = true :=
    fun x x' hx hx' => change_names hnormal hid hx hx'
  have hrun : cal.onException P id ((OccurrenceOp.cancel true).change P) = .ok cal' := h
  refine ⟨fun other hne => shownAt_onException_of_ne hstays hrun hne, ?_⟩
  obtain ⟨x, x', hx, hx', hover⟩ := override_onException hstays hrun
  cases hx'
  exact ⟨x, hx, by rw [shownAt_override hover]; exact slot_cancelled⟩

theorem cancel_one {stored : Calendar} (hagree : Agree P (some cal) att)
    (hhead : cal.vevents.head? = some c) (hnames : c.names P id = true)
    (hstand : att.override P id = none → ∀ m, att.master = some m →
      (parseComponent P (m.clonedFor id)).map timesOf = (att.shownAt P id).map timesOf)
    (hstored : markCancelled P cal (some id) true = .ok stored)
    (himport : markCancelled P att (some id) true = .ok att') : Agree P (some stored) att' := by
  have hnormal := recurrenceIdValue_normal (names_iff.1 hnames)
  obtain ⟨horg, x, hx, hxslot⟩ := cancel_shows hnormal hstored
  obtain ⟨hatt, y, hy, hyslot⟩ := cancel_shows hnormal himport
  have hover : cal.override P id = some c := find?_of_head? hhead hnames
  have hbefore : (att.shownAt P id).map ends = (parseComponent P c).map ends := by
    have h := ends_of_slot (hagree id)
    rw [shownAt_override hover] at h
    exact h
  have hxc : x = c := by
    rw [exceptionFor_stored hover, Option.some.injEq] at hx
    exact hx.symm
  have hyends : (parseComponent P y).map ends = (att.shownAt P id).map ends := by
    rcases exceptionFor_cases hy with ho | ⟨ho, m, hm, rfl⟩
    · rw [shownAt_override ho]
    · exact ends_of_timesOf (hstand ho m hm)
  intro other
  by_cases hne : other = id
  · rw [hne, hxslot, hyslot, hxc, hyends, hbefore]
  · rw [hatt other hne, horg other hne]
    exact hagree other

theorem cancel_whole (hoverrides : ∀ id c, att.override P id = some c → c.status = some .cancelled)
    (himport : markCancelled P att none true = .ok att') : Agree P none att' := by
  have hstays : ∀ x x' : Component, att.master = some x →
      (Except.ok (x.cancelled true) : Except EditError Component) = .ok x' →
        x'.recurrenceId = none := by
    intro x x' hx hx'
    have hnone := master_recurrenceId hx
    cases hx'
    exact hnone
  have hrun : att.onMaster "No matching VEVENT" (fun m => .ok (m.cancelled true)) = .ok att' :=
    himport
  intro id e he
  have hkeep : att'.override P id = att.override P id := override_onMaster hstays hrun
  cases ho : att.override P id with
  | some x =>
    rw [shownAt_override (hkeep.trans ho)] at he
    obtain ⟨s, -, -, -, -, -, hfields⟩ := parseComponent_eq.1 he
    have hstatus : e.status = x.status.getD .confirmed :=
      congrArg ParsedEvent.status hfields
    rw [hstatus, hoverrides id x ho, Option.getD_some]
  | none =>
    obtain ⟨m, m', hm, hm', hmaster⟩ := master_onMaster hstays hrun
    cases hm'
    unfold Calendar.shownAt at he
    simp only [hkeep.trans ho, hmaster] at he
    obtain ⟨span, -, hspan⟩ :=
      Option.bind_eq_some_iff.1 (show (P.generate _ id).bind _ = _ from he)
    obtain ⟨s, -, -, -, -, -, hfields⟩ := parseComponent_eq.1 hspan
    exact congrArg ParsedEvent.status hfields

/-! ### The organizer's operation -/

theorem bump_of_sends {organizer : Bool} (h : sends organizer m = true) :
    bumpSequence organizer m = true := by
  obtain ⟨horganizer, -⟩ := Bool.and_eq_true_iff.1 h
  unfold bumpSequence
  rw [horganizer, Bool.or_true]

theorem toOption_eq_some {α : Type} {x : Except EditError α} {a : α}
    (h : x.toOption = some a) : x = .ok a := by
  cases x with
  | error e => cases h
  | ok b =>
    cases h
    rfl

theorem perform_update {req : EventUpdateRequest} {stored : Option Calendar}
    {mailed : Calendar} (h : (OrganizerOp.update req).perform P identity cal = some (stored, mailed)) :
    ∃ written, stored = some written ∧ mailed = withMethod written "REQUEST" ∧
      ((∃ id, req.scope = some .this ∧ req.recurrenceId = some id ∧
          editOccurrence P cal id req.fields true = .ok written) ∨
        (req.scope ≠ some .this ∧ replaceMasterFields P cal req.fields true = .ok written)) := by
  obtain ⟨written, hwritten, h⟩ := Option.bind_eq_some_iff.1 h
  obtain ⟨m, hm, h⟩ := Option.bind_eq_some_iff.1 h
  by_cases hsends : sends (organizes P identity m) m = true
  · rw [if_pos hsends] at h
    cases h
    refine ⟨written, rfl, rfl, ?_⟩
    obtain ⟨m', hm', hcase⟩ := updateEvent_cases (toOption_eq_some hwritten)
    rw [hm, Option.some.injEq] at hm'
    rw [← hm', bump_of_sends hsends] at hcase
    exact hcase.imp_right fun hall => ⟨hall.1, hall.2.2⟩
  · rw [if_neg hsends] at h
    cases h

theorem perform_cancelOccurrence {stored : Option Calendar} {mailed : Calendar}
    (h : (OrganizerOp.cancelOccurrence id).perform P identity cal = some (stored, mailed)) :
    ∃ written, stored = some written ∧ mailed = withMethod written "CANCEL" ∧
      markCancelled P cal (some id) true = .ok written := by
  obtain ⟨written, hwritten, h⟩ := Option.bind_eq_some_iff.1 h
  obtain ⟨m, hm, h⟩ := Option.bind_eq_some_iff.1 h
  by_cases hsends : sends (organizesIlike P identity m) m = true
  · rw [if_pos hsends] at h
    cases h
    refine ⟨written, rfl, rfl, ?_⟩
    obtain ⟨m', hm', hrun⟩ := deleteOccurrence_cases (toOption_eq_some hwritten)
    rw [hm, Option.some.injEq] at hm'
    rw [← hm', bump_of_sends hsends] at hrun
    exact hrun
  · rw [if_neg hsends] at h
    cases h

theorem perform_cancelAll {stored : Option Calendar} {mailed : Calendar}
    (h : OrganizerOp.cancelAll.perform P identity cal = some (stored, mailed)) :
    ∃ written, stored = none ∧ mailed = withMethod written "CANCEL" ∧
      markCancelled P cal none true = .ok written := by
  obtain ⟨written, hwritten, h⟩ := Option.bind_eq_some_iff.1 h
  obtain ⟨m, hm, h⟩ := Option.bind_eq_some_iff.1 h
  by_cases hsends : sends (organizesIlike P identity m) m = true
  · rw [if_pos hsends] at h
    cases h
    exact ⟨written, rfl, rfl, toOption_eq_some hwritten⟩
  · rw [if_neg hsends] at h
    cases h

theorem editOccurrence_spec {f : FieldOverrides} (hnames : c.names P id = true)
    (hhead : cal.vevents.head? = some c) (hid : (OccurrenceOp.edit f true).IdStays P c)
    (h : editOccurrence P cal id f true = .ok cal') :
    (∃ c', cal'.vevents.head? = some c' ∧ c'.names P id = true) ∧
      ∀ other, other ≠ id → cal'.shownAt P other = cal.shownAt P other := by
  have hover : cal.override P id = some c := find?_of_head? hhead hnames
  have hstays : ∀ e, cal.override P id = some e → (OccurrenceOp.edit f true).IdStays P e := by
    intro e he
    rw [hover, Option.some.injEq] at he
    subst he
    exact hid
  have hchanged : ∀ x x', exceptionFor P cal id = some x →
      (OccurrenceOp.edit f true).change P x = .ok x' → x'.names P id = true :=
    fun x x' hx hx' => change_names (recurrenceIdValue_normal (names_iff.1 hnames)) hstays hx hx'
  have hrun : cal.onException P id ((OccurrenceOp.edit f true).change P) = .ok cal' := h
  obtain ⟨c', hc', hhead'⟩ := (onException_head hrun hhead).2 hnames
  exact ⟨⟨c', hhead', hchanged c c' (exceptionFor_stored hover) hc'⟩,
    fun other hne => shownAt_onException_of_ne hchanged hrun hne⟩

theorem editOccurrence_master {f : FieldOverrides} (hhead : cal.vevents.head? = some c)
    (hc : c.recurrenceId = none) (h : editOccurrence P cal id f true = .ok cal') :
    cal'.vevents.head? = some c := by
  refine (onException_head h hhead).1 (decide_eq_false fun hid => ?_)
  rw [recurrenceIdValue_eq_none.2 hc] at hid
  cases hid

theorem replaceMasterFields_master {f : FieldOverrides} (hhead : cal.vevents.head? = some c)
    (hc : c.recurrenceId = none) (h : replaceMasterFields P cal f true = .ok cal') :
    ∃ c', cal'.vevents.head? = some c' ∧ c'.recurrenceId = none := by
  obtain ⟨c', hc', hhead'⟩ := onMaster_head h hhead hc
  obtain ⟨dtstart, dtend, rrule, -, -, -, rfl⟩ := applyFieldOverrides_ok hc'
  refine ⟨_, hhead', ?_⟩
  rw [bumped_eq]
  exact hc

/-- **Organizer and attendee agree after a message that is read as it was meant**: of a series
both hold alike they show the same occurrences with the same start, end and status after an edit
or a cancellation and the message confirmed for it, if the body begins with what it is for. -/
theorem agree_after_message_read_as_meant {org mailed : Calendar} {stored : Option Calendar}
    {inv : ParsedInvitation} {op : OrganizerOp} (hagree : Agree P (some org) att)
    (hop : op.perform P identity org = some (stored, mailed))
    (hparse : parseItipMessage mailed = some inv)
    (himport : importInto P att mailed inv = .ok att') (hmeant : ReadAsMeant P org att op) :
    Agree P stored att' := by
  cases op with
  | update req =>
    obtain ⟨written, rfl, rfl, hrun⟩ := perform_update hop
    obtain ⟨c, hhead, hfirst⟩ := hmeant
    rcases hfirst with hmaster | ⟨id, hthis, hid, hnames, hstays⟩
    · rcases hrun with ⟨id, -, -, hrun⟩ | ⟨-, hrun⟩
      · exact request_whole (editOccurrence_master hhead hmaster hrun) hmaster hparse himport
      · obtain ⟨c', hhead', hmaster'⟩ := replaceMasterFields_master hhead hmaster hrun
        exact request_whole hhead' hmaster' hparse himport
    · rcases hrun with ⟨id', -, hid', hrun⟩ | ⟨hthis', -⟩
      · rw [hid, Option.some.injEq] at hid'
        subst hid'
        obtain ⟨⟨c', hhead', hnames'⟩, hothers⟩ := editOccurrence_spec hnames hhead hstays hrun
        exact request_merged hagree hothers hhead' hnames' hparse himport
      · exact absurd hthis hthis'
  | cancelOccurrence id =>
    obtain ⟨written, rfl, rfl, hrun⟩ := perform_cancelOccurrence hop
    obtain ⟨⟨c, hhead, hnames⟩, hstand⟩ := hmeant
    obtain ⟨c', hc', hhead'⟩ := (onException_head hrun hhead).2 hnames
    have hatt := import_cancel hhead' hparse himport
    have hid : c'.recurrenceIdValue P = some id := by
      cases hc'
      exact names_iff.1 hnames
    rw [hid] at hatt
    exact cancel_one hagree hhead hnames hstand hrun hatt
  | cancelAll =>
    obtain ⟨written, rfl, rfl, hrun⟩ := perform_cancelAll hop
    obtain ⟨⟨c, hhead, hmaster⟩, hoverrides⟩ := hmeant
    obtain ⟨c', hc', hhead'⟩ := onMaster_head hrun hhead hmaster
    have hatt := import_cancel hhead' hparse himport
    have hid : c'.recurrenceIdValue P = none := by
      cases hc'
      exact recurrenceIdValue_eq_none.2 hmaster
    rw [hid] at hatt
    exact cancel_whole hoverrides hatt

/-! ### A meeting of three days -/

def meeting : Component :=
  { standup with
    organizer := some ⟨"host@example.org", none, none⟩
    attendees := [⟨"guest@example.org", none, some .accepted, none, none⟩] }

def organized : Calendar := { method := none, vevents := [meeting] }

def identityOfHost : Option String := some "host@example.org"

def newTitle : OrganizerOp :=
  .update { fields := { summary := some "Planning" }, scope := some .all }

def renamed : Calendar :=
  { method := none
    vevents := [{ meeting with summary := some "Planning", sequence := some 1 }] }

theorem renamed_meeting_agreed : Agree utcPlatform (some renamed) (fixed renamed) := by
  have hagree : Agree utcPlatform (some organized) (fixed organized) := fun id => fixed_slot
  have hop : newTitle.perform utcPlatform identityOfHost organized
      = some (some renamed, withMethod renamed "REQUEST") := rfl
  have himport : importInto utcPlatform (fixed organized) (withMethod renamed "REQUEST")
      ⟨"REQUEST", { meeting with summary := some "Planning", sequence := some 1 }⟩
        = .ok (fixed renamed) := rfl
  have hmeant : ReadAsMeant utcPlatform organized (fixed organized) newTitle :=
    ⟨meeting, rfl, .inl rfl⟩
  exact agree_after_message_read_as_meant hagree hop rfl himport hmeant

/-- The host's body after the second day is cancelled: the master first, then a clone. -/
def secondDayCancelled : Calendar :=
  { method := none
    vevents := [meeting,
      { meeting with
        status := some .cancelled
        sequence := some 1
        timing := { meeting.timing with rrule := [] }
        recurrenceId := some (.timed 118800 (some "UTC")) }] }

/-- The guest's body after the message about it: the master is cancelled. -/
def seriesCancelled : Calendar :=
  fixed { method := none
          vevents := [{ meeting with status := some .cancelled, sequence := some 1 }] }

/-- Cancelling the second day cancels every day at the guest's. -/
theorem one_day_cancelled_cancels_all :
    Agree utcPlatform (some organized) (fixed organized) ∧
      (OrganizerOp.cancelOccurrence (.instant 118800)).perform utcPlatform identityOfHost organized
        = some (some secondDayCancelled, withMethod secondDayCancelled "CANCEL") ∧
      parseItipMessage (withMethod secondDayCancelled "CANCEL") = some ⟨"CANCEL", meeting⟩ ∧
      importInto utcPlatform (fixed organized) (withMethod secondDayCancelled "CANCEL")
        ⟨"CANCEL", meeting⟩ = .ok seriesCancelled ∧
      ¬ Agree utcPlatform (some secondDayCancelled) seriesCancelled := by
  refine ⟨fun id => fixed_slot, ?_, rfl, rfl, fun hagree => ?_⟩
  · rfl
  · -- the first day stands at the host's and is cancelled at the guest's
    have hfirst := hagree (.instant 32400)
    exact absurd hfirst (by decide)

end MailVerdict.Analysis.SchedulingAgreement
