import MailVerdict.Analysis.OccurrenceEdits

/-!
# What an emailed REPLY can change

A REPLY is the one message whose effect on a stored object is automatic. Its sender is
checked against the attendee it names, and PARTSTAT is written to the lines of that
address. A reply about one occurrence is written through `_get_or_clone_exception`
though, so where no exception is stored it makes one, at the master's own times:
`reply_changes_attendance_only_iff` says for which replies nothing but attendance
changes.
-/

namespace MailVerdict.Analysis.ReplyIntake

open MailVerdict.Computation Model.Ical Model.Invitations
open Analysis.IcalBodies Analysis.OccurrenceEdits

variable {email : String} {partstat : Partstat}

/-- An attendee line after a reply of `sender`: as it was, or the sender's own with
another PARTSTAT. -/
def OnlyPartstat (P : Platform) (sender : String) (a a' : Attendee) : Prop :=
  a' = a ∨ P.lower a.email = P.lower sender ∧ a' = { a with partstat := a'.partstat }

/-- The same occurrence but for the sender's PARTSTAT, or no occurrence both times. -/
def SameButPartstat (P : Platform) (sender : String) :
    Option ParsedEvent → Option ParsedEvent → Prop
  | none, none => True
  | some b, some a =>
    a = { b with attendees := a.attendees } ∧
      List.Forall₂ (OnlyPartstat P sender) b.attendees a.attendees
  | _, _ => False

def timesOf (e : ParsedEvent) : Instant × Instant × Option Zone × Bool :=
  (e.dtstart, e.dtend, e.tz, e.allDay)

/-- The gate row of a message lets it be applied: there is none, or it is pending. -/
def gateOpen (s : Store) (msg : Message) : Bool :=
  match s.intake.find? msg.key with
  | none => true
  | some row => decide (row.status = .pending)

/-- The object a reply is applied to: one of its UID within reach of the mail account, if
the gate is open and the sender is the attendee it names. -/
def replyTarget (P : Platform) (D : Directory) (s : Store) (msg : Message)
    (inv : ParsedInvitation) : Option DavObject :=
  if gateOpen s msg && replyAttendeeAuthorized P msg inv then
    findByUidReachable D s.objects inv.master.uid msg.accountId
  else none

/-- The reply is about the whole series, or about an occurrence an exception is stored
for, or about one whose times are the master's own, so that a clone of the master stands
where the occurrence stood. -/
def ReplyStands (P : Platform) (data : Calendar) (inv : ParsedInvitation) : Prop :=
  ∀ id, inv.master.recurrenceIdValue P = some id → data.override P id = none →
    ∀ m, data.master = some m →
      (parseComponent P (m.clonedFor id)).map timesOf = (data.shownAt P id).map timesOf

variable {P : Platform} {D : Directory} {s : Store} {msg : Message} {raw : Calendar}
  {inv : ParsedInvitation} {o : DavObject} {a : Attendee} {sender : String}
  {cal cal' : Calendar} {id : RecurrenceId} {c m : Component}

/-! ### What is applied -/

theorem createIfAbsent_gate (row : IntakeRow) (hkey : row.key = msg.key) :
    ((createIfAbsent s.intake row).2.2 = true ∨
        (createIfAbsent s.intake row).2.1.status = .pending) ↔ gateOpen s msg = true := by
  unfold createIfAbsent gateOpen
  by_cases h : row.key ∈ s.intake.rows.map IntakeRow.key
  · rw [dif_pos h, hkey]
    cases hfind : s.intake.find? msg.key with
    | none =>
      obtain ⟨r, hr, hrk⟩ := List.mem_map.1 h
      exact absurd (hrk.trans hkey) (KeyedTable.find?_eq_none_iff.1 hfind r hr)
    | some existing => simp
  · rw [dif_neg h]
    cases hfind : s.intake.find? msg.key with
    | none => simp
    | some existing =>
      obtain ⟨hmem, hk⟩ := KeyedTable.find?_eq_some_iff.1 hfind
      exact absurd (List.mem_map.2 ⟨existing, hmem, hk.trans hkey.symm⟩) h

theorem apply_objects {key : Uuid × String} {d : IntakeDecision} {e : Effect}
    (h : effectOf P d inv raw = .ok (some e)) :
    (s.apply P key d inv raw).objects = (s.applyEffect e).1.objects := by
  unfold Store.apply
  rw [h]

theorem apply_objects_same {key : Uuid × String} {d : IntakeDecision}
    (h : ∀ e, effectOf P d inv raw ≠ .ok (some e)) :
    (s.apply P key d inv raw).objects = s.objects := by
  unfold Store.apply
  split
  · rfl
  · split
    · split
      · rfl
      · rfl
    · rfl
  · rename_i e he
    exact absurd he (h e)

theorem authorized_attendee (h : replyAttendeeAuthorized P msg inv = true) :
    ∃ a sender, inv.master.attendees.head? = some a ∧ msg.fromAddr = some sender ∧
      P.lower a.email = P.lower sender := by
  unfold replyAttendeeAuthorized at h
  split at h
  · rename_i a sender ha hsender
    rw [Bool.and_eq_true, decide_eq_true_eq, decide_eq_true_eq] at h
    exact ⟨a, sender, ha, hsender, h.2⟩
  · cases h

/-- A reply changes the one object it is for, or none. -/
theorem processArrival_reply (hinv : parseItipMessage raw = some inv)
    (hreply : inv.method = "REPLY") :
    (s.processArrival P D msg (some raw)).objects =
      match replyTarget P D s msg inv, inv.master.attendees.head? with
      | some o, some a =>
        match replied P o.data inv a with
        | .ok data => replaceObjectData s.objects o.id data
        | .error _ => s.objects
      | _, _ => s.objects := by
  have hhandled : inv.method ∈ handledMethods := by
    rw [hreply]
    decide
  unfold Store.processArrival
  rw [Option.bind_some, hinv]
  simp only [if_pos hhandled]
  have hgate : (createIfAbsent s.intake
        (intakeRow P msg inv (decideOn P D s.objects msg inv))).2.2 = true ∨
      (createIfAbsent s.intake
        (intakeRow P msg inv (decideOn P D s.objects msg inv))).2.1.status = .pending ↔
      gateOpen s msg = true := createIfAbsent_gate _ rfl
  unfold replyTarget
  by_cases hopen : gateOpen s msg = true
  · rw [if_pos (hgate.2 hopen), hopen, Bool.true_and]
    by_cases hauth : replyAttendeeAuthorized P msg inv = true
    · obtain ⟨a, sender, ha, -, -⟩ := authorized_attendee hauth
      rw [if_pos hauth, ha]
      cases hfind : findByUidReachable D s.objects inv.master.uid msg.accountId with
      | none =>
        have hd : decideOn P D s.objects msg inv = { status := .ignored } := by
          simp [decideOn, hfind, hreply]
        exact apply_objects_same fun e he => by simp [effectOf, hd] at he
      | some o =>
        have hd : decideOn P D s.objects msg inv = aboutExisting .updated none o := by
          simp [decideOn, hfind, hreply, hauth]
        have heffect : effectOf P (decideOn P D s.objects msg inv) inv raw
            = (replied P o.data inv a).map fun data => some (.replace o.id data) := by
          simp [effectOf, hd, aboutExisting, ha, hreply]
        show _ = match replied P o.data inv a with
          | .ok data => replaceObjectData s.objects o.id data
          | .error _ => s.objects
        cases hdata : replied P o.data inv a with
        | error err =>
          refine apply_objects_same fun e he => ?_
          rw [heffect, hdata] at he
          cases he
        | ok data =>
          rw [hdata] at heffect
          exact apply_objects heffect
    · rw [if_neg hauth]
      refine apply_objects_same fun e he => ?_
      cases hfind : findByUidReachable D s.objects inv.master.uid msg.accountId with
      | none => simp [effectOf, decideOn, hfind, hreply] at he
      | some o => simp [effectOf, decideOn, hfind, hreply, hauth, aboutExisting] at he
  · rw [if_neg fun h => hopen (hgate.1 h), if_neg (by simp [hopen])]

/-! ### What the write changes -/

theorem samePartstat_refl (e : Option ParsedEvent) : SameButPartstat P sender e e := by
  cases e with
  | none => trivial
  | some e => exact ⟨rfl, List.forall₂_same.2 fun a _ => .inl rfl⟩

theorem withPartstat_only
    (hsender : P.lower email = P.lower sender) (attendees : List Attendee) :
    List.Forall₂ (OnlyPartstat P sender) attendees (withPartstat P email partstat attendees) := by
  unfold withPartstat
  rw [List.forall₂_map_right_iff]
  refine List.forall₂_same.2 fun a _ => ?_
  by_cases ha : P.lower a.email = P.lower email
  · rw [if_pos ha]
    exact .inr ⟨ha.trans hsender, rfl⟩
  · rw [if_neg ha]
    exact .inl rfl

theorem parse_answered :
    parseComponent P (c.answered P email partstat) =
      (parseComponent P c).map fun e =>
        { e with attendees := withPartstat P email partstat e.attendees } := by
  unfold parseComponent Component.answered
  cases c.timing.dtstart with
  | none => rfl
  | some s => rfl

theorem samePartstat_answered
    (hsender : P.lower email = P.lower sender) (e : Option ParsedEvent) :
    SameButPartstat P sender e
      (e.map fun e => { e with attendees := withPartstat P email partstat e.attendees }) := by
  cases e with
  | none => trivial
  | some e => exact ⟨rfl, withPartstat_only hsender _⟩

theorem answeredByAttendee_ok {c' : Component}
    (h : c.answeredByAttendee P email partstat = .ok c') : c' = c.answered P email partstat := by
  unfold Component.answeredByAttendee at h
  split at h
  · exact (Except.ok.inj h).symm
  · cases h

theorem setPartstat_shown (hsender : P.lower email = P.lower sender)
    (h : setPartstat P cal email partstat = .ok cal') (id : RecurrenceId) :
    SameButPartstat P sender (cal.shownAt P id) (cal'.shownAt P id) := by
  have hstays : ∀ m m', cal.master = some m →
      m.answeredByAttendee P email partstat = .ok m' → m'.recurrenceId = none := by
    intro m m' hm hm'
    rw [answeredByAttendee_ok hm']
    exact master_recurrenceId (m := m) hm
  have hover : cal'.override P id = cal.override P id := override_onMaster hstays h
  obtain ⟨m, m', hm, hm', hmaster⟩ := master_onMaster hstays h
  rw [answeredByAttendee_ok hm'] at hmaster
  unfold Calendar.shownAt
  rw [hover, hmaster, hm]
  cases cal.override P id with
  | some c => exact samePartstat_refl _
  | none =>
    show SameButPartstat P sender ((P.generate m.timing id).bind _) ((P.generate m.timing id).bind _)
    cases P.generate m.timing id with
    | none => trivial
    | some span =>
      show SameButPartstat P sender (parseComponent P (m.occurrence span))
        (parseComponent P ((m.occurrence span).answered P email partstat))
      rw [parse_answered]
      exact samePartstat_answered hsender _

theorem recurrenceIdValue_normal (h : c.recurrenceIdValue P = some id) :
    ∀ s, id ≠ .localTime s := by
  intro s hs
  obtain ⟨value, -, hvalue⟩ := Option.map_eq_some_iff.1 h
  rw [hs] at hvalue
  split at hvalue
  · cases hvalue
  · cases hvalue
  · split at hvalue
    · cases hvalue
    · cases hvalue

theorem answered_names (hid : ∀ s, id ≠ .localTime s) :
    ∀ c c', exceptionFor P cal id = some c →
      (.ok (c.answered P email partstat) : Except EditError Component) = .ok c' →
      c'.names P id = true := by
  intro c c' htarget hc'
  cases hc'
  rcases exceptionFor_cases htarget with ho | ⟨-, m, -, rfl⟩
  · exact override_names (c := c) ho
  · exact clonedFor_names (m := m) hid

theorem clone_untimed (hover : cal.override P id = none) (hmaster : cal.master = some m)
    {b e : ParsedEvent} (hb : cal.shownAt P id = some b)
    (he : parseComponent P (m.clonedFor id) = some e) :
    OccurrenceOp.untimed b = OccurrenceOp.untimed e := by
  unfold Calendar.shownAt at hb
  rw [hover, hmaster] at hb
  have hb : ((P.generate m.timing id).bind fun span => parseComponent P (m.occurrence span))
      = some b := hb
  obtain ⟨span, -, hb⟩ := Option.bind_eq_some_iff.1 hb
  obtain ⟨-, -, -, -, -, -, hb⟩ := parseComponent_eq.1 hb
  obtain ⟨-, -, -, -, -, -, he⟩ := parseComponent_eq.1 he
  exact hb.trans he.symm

theorem eq_of_untimed {b e : ParsedEvent} (h : OccurrenceOp.untimed b = OccurrenceOp.untimed e)
    (htimes : timesOf e = timesOf b) : e = b := by
  obtain ⟨e1, e2, e3, e4, e5, e6, e7, e8, e9, e10, e11, e12, e13, e14⟩ := e
  obtain ⟨b1, b2, b3, b4, b5, b6, b7, b8, b9, b10, b11, b12, b13, b14⟩ := b
  simp only [timesOf, Prod.mk.injEq] at htimes
  simp only [OccurrenceOp.untimed, ParsedEvent.mk.injEq] at h ⊢
  simp only [h, htimes, and_self]

theorem clone_same_iff (hover : cal.override P id = none) (hmaster : cal.master = some m) (hsender : P.lower email = P.lower sender) :
    SameButPartstat P sender (cal.shownAt P id)
        (parseComponent P ((m.clonedFor id).answered P email partstat)) ↔
      (parseComponent P (m.clonedFor id)).map timesOf = (cal.shownAt P id).map timesOf := by
  rw [parse_answered]
  cases hb : cal.shownAt P id with
  | none =>
    cases parseComponent P (m.clonedFor id) with
    | none => exact ⟨fun _ => rfl, fun _ => trivial⟩
    | some e => exact ⟨fun h => h.elim, fun h => by cases h⟩
  | some b =>
    cases he : parseComponent P (m.clonedFor id) with
    | none => exact ⟨fun h => h.elim, fun h => by cases h⟩
    | some e =>
      constructor
      · rintro ⟨hab, -⟩
        have htimes := congrArg timesOf hab
        exact congrArg some htimes
      · intro htimes
        have heb := eq_of_untimed (clone_untimed hover hmaster hb he) (Option.some.inj htimes)
        rw [heb]
        exact samePartstat_answered hsender (some b)

/-- A reply marks nobody but its sender exactly when it stands. -/
theorem replied_iff (hsender : P.lower a.email = P.lower sender)
    (h : replied P cal inv a = .ok cal') :
    (∀ id, SameButPartstat P sender (cal.shownAt P id) (cal'.shownAt P id)) ↔
      ReplyStands P cal inv := by
  unfold replied at h
  cases hid : inv.master.recurrenceIdValue P with
  | none =>
    simp only [hid] at h
    refine ⟨fun _ id hrid => ?_, fun _ => setPartstat_shown hsender h⟩
    rw [hid] at hrid
    cases hrid
  | some id =>
    simp only [hid] at h
    have hnames : ∀ c c', exceptionFor P cal id = some c →
        (.ok (c.answered P a.email (Attendee.partstatValue a)) : Except EditError Component)
          = .ok c' → c'.names P id = true :=
      answered_names (recurrenceIdValue_normal hid)
    obtain ⟨c, c', htarget, hc', hover'⟩ := override_onException hnames h
    cases hc'
    have hothers : ∀ other, other ≠ id → cal'.shownAt P other = cal.shownAt P other :=
      fun other hne => shownAt_onException_of_ne hnames h hne
    have hshown' := shownAt_override hover'
    rcases exceptionFor_cases htarget with ho | ⟨ho, m, hmaster, rfl⟩
    · constructor
      · intro _ other hrid hnone
        rw [hid, Option.some.injEq] at hrid
        rw [← hrid, ho] at hnone
        cases hnone
      · intro _ other
        by_cases hne : other = id
        · rw [hne, hshown', shownAt_override ho, parse_answered]
          exact samePartstat_answered hsender _
        · rw [hothers other hne]
          exact samePartstat_refl _
    · have hclone : SameButPartstat P sender (cal.shownAt P id)
          (parseComponent P ((m.clonedFor id).answered P a.email (Attendee.partstatValue a))) ↔
          (parseComponent P (m.clonedFor id)).map timesOf = (cal.shownAt P id).map timesOf :=
        clone_same_iff ho hmaster hsender
      constructor
      · intro hsame other hrid _ m' hm'
        rw [hid, Option.some.injEq] at hrid
        rw [hmaster, Option.some.injEq] at hm'
        rw [← hrid, ← hm']
        have hat := hsame id
        rw [hshown'] at hat
        exact hclone.1 hat
      · intro hstands other
        by_cases hne : other = id
        · rw [hne, hshown']
          exact hclone.2 (hstands id hid ho m hmaster)
        · rw [hothers other hne]
          exact samePartstat_refl _

theorem stands_of_error {err : EditError} (h : replied P cal inv a = .error err) :
    ReplyStands P cal inv := by
  intro id hid hover m hmaster
  unfold replied at h
  simp only [hid] at h
  unfold replaceExceptionPartstatOrAdd Calendar.onException at h
  simp only [hover, hmaster] at h
  cases h

/-- Every stored object shows the same occurrences as before but for the sender's
PARTSTAT. -/
def AttendanceOnly (P : Platform) (sender : String) (before after : Objects) : Prop :=
  ∀ k o, before.find? k = some o → ∃ o', after.find? k = some o' ∧
    ∀ id, SameButPartstat P sender (o.data.shownAt P id) (o'.data.shownAt P id)

theorem attendanceOnly_refl (objects : Objects) : AttendanceOnly P sender objects objects :=
  fun _ o hk => ⟨o, hk, fun _ => samePartstat_refl _⟩

theorem attendanceOnly_replace {objects : Objects} {data : Calendar} (ho : o ∈ objects.rows) :
    AttendanceOnly P sender objects (replaceObjectData objects o.id data) ↔
      ∀ id, SameButPartstat P sender (o.data.shownAt P id) (data.shownAt P id) := by
  unfold replaceObjectData
  constructor
  · intro h id
    obtain ⟨o', ho', hid⟩ := h o.id o (KeyedTable.find?_eq_some_iff.2 ⟨ho, rfl⟩)
    rw [KeyedTable.find?_update, KeyedTable.find?_eq_some_iff.2 ⟨ho, rfl⟩, Option.map_some,
      if_pos (decide_eq_true rfl), Option.some.injEq] at ho'
    have hdata := hid id
    rw [← ho'] at hdata
    exact hdata
  · intro h k p hk
    rw [KeyedTable.find?_update, hk, Option.map_some]
    refine ⟨_, rfl, fun id => ?_⟩
    by_cases hp : p.id = o.id
    · have hpo : p = o := objects.eq_of_key_eq (KeyedTable.find?_eq_some_iff.1 hk).1 ho hp
      rw [if_pos (decide_eq_true hp), hpo]
      exact h id
    · rw [if_neg (by simpa using hp)]
      exact samePartstat_refl _

theorem replyTarget_some (h : replyTarget P D s msg inv = some o) :
    o ∈ s.objects.rows ∧ replyAttendeeAuthorized P msg inv = true := by
  unfold replyTarget at h
  split at h
  · rename_i hgate
    rw [Bool.and_eq_true] at hgate
    exact ⟨List.mem_of_find?_eq_some h, hgate.2⟩
  · cases h

/-- **An emailed REPLY changes attendance only** (every object expands to the same occurrences
but for the sender's PARTSTAT) if and only if it is applied to no object, or is about the whole
series, an occurrence with a stored exception, or one that stands at the master's own times. -/
theorem reply_changes_attendance_only_iff {attachment : Option Calendar}
    (hreply : ∀ inv, attachment.bind parseItipMessage = some inv → inv.method = "REPLY") :
    AttendanceOnly P (msg.fromAddr.getD "") s.objects
        (s.processArrival P D msg attachment).objects ↔
      ∀ inv o, attachment.bind parseItipMessage = some inv → replyTarget P D s msg inv = some o →
        ReplyStands P o.data inv := by
  cases attachment with
  | none => exact ⟨fun _ _ _ hinv => (by cases hinv), fun _ => attendanceOnly_refl _⟩
  | some raw =>
    rw [Option.bind_some] at hreply ⊢
    cases hinv : parseItipMessage raw with
    | none =>
      have hobjects : (s.processArrival P D msg (some raw)).objects = s.objects := by
        unfold Store.processArrival
        rw [Option.bind_some, hinv]
      rw [hobjects]
      exact ⟨fun _ _ _ h => (by cases h), fun _ => attendanceOnly_refl _⟩
    | some inv =>
      rw [processArrival_reply hinv (hreply inv hinv)]
      cases htarget : replyTarget P D s msg inv with
      | none =>
        refine ⟨fun _ inv' o h ho => ?_, fun _ => attendanceOnly_refl _⟩
        rw [Option.some.injEq] at h
        rw [← h, htarget] at ho
        cases ho
      | some o =>
        obtain ⟨ho, hauth⟩ := replyTarget_some htarget
        obtain ⟨a, sender, ha, hsender, hlower⟩ := authorized_attendee hauth
        have hcondition : (∀ inv' o', some inv = some inv' →
            replyTarget P D s msg inv' = some o' → ReplyStands P o'.data inv') ↔
              ReplyStands P o.data inv := by
          refine ⟨fun h => h inv o rfl htarget, fun h inv' o' hinv' ho' => ?_⟩
          rw [Option.some.injEq] at hinv'
          rw [← hinv', htarget, Option.some.injEq] at ho'
          rw [← hinv', ← ho']
          exact h
        rw [hcondition, hsender, Option.getD_some, ha]
        cases hdata : replied P o.data inv a with
        | error err =>
          simp only [hdata]
          exact ⟨fun _ => stands_of_error hdata, fun _ => attendanceOnly_refl _⟩
        | ok data =>
          simp only [hdata]
          rw [← replied_iff hlower hdata]
          exact attendanceOnly_replace ho

/-! ### A reply to one stand-up -/

/-- The mail account 1 has an identity whose calendar 1 is in DAV account 1. -/
def office : Directory :=
  { identities := [⟨1, 1, "me@office.example"⟩]
    collections := [⟨1, 1, true, false, false⟩]
    prefs := [⟨1, some 1, false⟩]
    davAccounts := [⟨1, true⟩] }

def guest : Attendee :=
  { email := "guest@office.example", cn := none, partstat := none, role := none,
    scheduleAgent := none }

def guestStandups : Calendar :=
  { method := none, vevents := [{ standup with attendees := [guest] }] }

def officeStore : Store where
  objects :=
    { rows := [⟨1, 1, 1, some "standup", guestStandups, false⟩]
      primaryKey := List.nodup_singleton _ }
  intake := KeyedTable.empty
  nextId := 2
  fresh := by
    intro o ho
    rw [List.mem_singleton] at ho
    rw [ho]
    exact Nat.lt_succ_self 1

def mail : Message := { accountId := 1, msgKey := "reply", fromAddr := some "guest@office.example" }

def declines (start : Instant) : Calendar :=
  { method := some "REPLY"
    vevents := [
      { standup with
        timing := { standup.timing with dtstart := none, dtend := none, rrule := [] }
        recurrenceId := some (.timed start (some "UTC"))
        attendees := [{ guest with partstat := some .declined }] }] }

/-- Declining the first stand-up changes the guest's PARTSTAT only. -/
theorem declined_first_standup :
    AttendanceOnly utcPlatform "guest@office.example" officeStore.objects
      (officeStore.processArrival utcPlatform office mail (some (declines 32400))).objects := by
  refine (@reply_changes_attendance_only_iff utcPlatform office officeStore mail
    (some (declines 32400)) ?_).2 ?_
  · intro inv hinv
    cases hinv
    rfl
  · intro inv o hinv ho
    cases hinv
    cases ho
    intro id hid _ m hm
    cases hid
    cases hm
    rfl

/-- Declining the second stand-up moves it onto the first day. -/
theorem declined_second_standup_moves :
    ¬ AttendanceOnly utcPlatform "guest@office.example" officeStore.objects
      (officeStore.processArrival utcPlatform office mail (some (declines 118800))).objects := by
  intro h
  obtain ⟨o', ho', hshown⟩ := h 1 ⟨1, 1, 1, some "standup", guestStandups, false⟩ rfl
  cases ho'
  have hmoved := (hshown (.instant 118800)).1
  exact absurd (congrArg ParsedEvent.dtstart hmoved) (by decide)

end MailVerdict.Analysis.ReplyIntake
