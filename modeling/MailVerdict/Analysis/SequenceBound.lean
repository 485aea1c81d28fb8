import MailVerdict.Analysis.OccurrenceEdits

/-!
# SEQUENCE of an event organised by someone else

SEQUENCE is the organizer's version counter, and `decide` drops a REQUEST whose SEQUENCE
is below the stored one. A copy held as an attendee is written by six operations; the
system below runs them in any order, with the organizer's messages arriving in any order
and imported any number of times, and remembers what was received for each component.

`import_invitation` cancels with `mark_cancelled`'s default, which advances SEQUENCE, so
the bound holds along the runs that never cancel a component already at the highest
SEQUENCE received for it (`sequence_never_exceeds_received`).
-/

namespace MailVerdict.Analysis.SequenceBound

open MailVerdict.Computation Model.Ical Model.Invitations
open Model.CalendarEvents Analysis.IcalBodies
open Analysis.OccurrenceEdits

variable {email : String} {partstat : Partstat} {inv : ParsedInvitation} {raw : Calendar}

/-- A component of a series: the master, or the override of one occurrence. -/
abbrev ComponentKey := Option RecurrenceId

/-- The organizer's address and that of the identity the calendar is linked to; the two
are not the same person's. -/
structure Party (P : Platform) where
  organizer : String
  identity : Option String
  other : ∀ email, identity = some email → P.lower email ≠ P.lower organizer

/-- An attendee's copy of an event, the organizer's messages that arrived, the SEQUENCE
each of them carried for each component, and the exceptions made here. -/
structure HeldEvent where
  held : Option Calendar
  inbox : List Calendar
  received : List (ComponentKey × ℤ)
  locals : List RecurrenceId

inductive HeldLabel
  | receive (raw : Calendar)
  | importMessage (i : ℕ)
  | update (req : EventUpdateRequest)
  | deleteOccurrence (id : RecurrenceId)
  | delete
  | respond (email : String) (partstat : Partstat) (id : Option RecurrenceId)
  | reply (inv : ParsedInvitation) (a : Attendee)

section System

variable (P : Platform) (party : Party P)

def Organized (c : Component) : Prop := c.organizer.map Organizer.email = some party.organizer

instance (c : Component) : Decidable (Organized P party c) :=
  inferInstanceAs (Decidable (c.organizer.map Organizer.email = some party.organizer))

def cloneId : RecurrenceId → RecurrenceId
  | .localTime s => .instant s
  | id => id

/-- The exceptions made here, with the one an operation on `id` makes. -/
def withLocal (cal : Calendar) (id : RecurrenceId) (locals : List RecurrenceId) :
    List RecurrenceId :=
  if (cal.override P id).isNone then cloneId id :: locals else locals

/-- The exceptions made here after an operation on the whole series or one occurrence. -/
def localsAfter (cal : Calendar) (id : Option RecurrenceId) (locals : List RecurrenceId) :
    List RecurrenceId :=
  match id with
  | some id => withLocal P cal id locals
  | none => locals

/-- The exceptions made here after a message has been imported: a cancellation writes to
what is there, a merge brings the organizer's own exception. -/
def localsImported (inv : ParsedInvitation) (locals : List RecurrenceId) : List RecurrenceId :=
  if inv.method = "CANCEL" then locals
  else
    match inv.master.recurrenceIdValue P with
    | some id => locals.filter fun k => decide (k ≠ id)
    | none => []

def HeldEvent.write (s : HeldEvent) (op : Calendar → Except EditError Calendar)
    (locals : Calendar → List RecurrenceId) : Option HeldEvent :=
  s.held.bind fun cal =>
    match op cal with
    | .ok cal' => some { s with held := some cal', locals := locals cal }
    | .error _ => none

def HeldEvent.step (s : HeldEvent) : HeldLabel → Option HeldEvent
  | .receive raw =>
    -- What comes from the organizer: a message about the organizer's own event.
    if ∀ c ∈ raw.vevents, Organized P party c then
      some { s with
        inbox := s.inbox ++ [raw]
        received := s.received ++
          raw.vevents.map fun c => (c.recurrenceIdValue P, c.sequenceValue) }
    else none
  | .importMessage i =>
    (s.inbox[i]?).bind fun raw =>
      (parseItipMessage raw).bind fun inv =>
        match s.held with
        | some _ =>
          s.write (fun cal => importInto P cal raw inv)
            fun _ => localsImported P inv s.locals
        | none =>
          if inv.method = "CANCEL" ∨ importRefused inv then none
          else some { s with held := some (fixed raw), locals := [] }
  | .update req =>
    s.write (fun cal => updateEvent P party.identity cal req)
      fun cal => localsAfter P cal req.recurrenceId s.locals
  | .deleteOccurrence id =>
    s.write (fun cal => deleteOccurrence P party.identity cal id)
      fun cal => withLocal P cal id s.locals
  | .delete => s.held.map fun _ => { s with held := none, locals := [] }
  | .respond email partstat id =>
    s.write (fun cal => respondToEvent P cal email partstat id)
      fun cal => localsAfter P cal id s.locals
  | .reply inv a =>
    s.write (fun cal => replied P cal inv a)
      fun cal => localsAfter P cal (inv.master.recurrenceIdValue P) s.locals

def heldSystem : TransitionSystem HeldEvent HeldLabel where
  init s := s = { held := none, inbox := [], received := [], locals := [] }
  step := HeldEvent.step P party

def AtLeast (s : HeldEvent) (key : ComponentKey) (n : ℤ) : Prop :=
  ∃ r ∈ s.received, r.1 = key ∧ n ≤ r.2

/-- `n` is within what was received for the component; for an exception made here, for
the master. -/
def Allowed (s : HeldEvent) (key : ComponentKey) (n : ℤ) : Prop :=
  AtLeast s key n ∨ ∃ id ∈ s.locals, key = some id ∧ AtLeast s none n

/-- The SEQUENCE stored for every component is within what was received for it. -/
def SequenceBounded (s : HeldEvent) : Prop :=
  ∀ cal, s.held = some cal → ∀ c ∈ cal.vevents,
    Allowed s (c.recurrenceIdValue P) c.sequenceValue

def cancelTarget (cal : Calendar) (id : Option RecurrenceId) : Option Component :=
  match id with
  | some id => exceptionFor P cal id
  | none => cal.master

/-- A CANCEL is imported only onto a component stored below the highest SEQUENCE received for it;
one occurrence is deleted only where the organizer's address, read as a pattern, does not match the
identity's; and an edited exception goes on naming its occurrence. -/
def KeepsBound (s : HeldEvent) : HeldLabel → Prop
  | .importMessage i =>
    ∀ raw inv cal c, s.inbox[i]? = some raw → parseItipMessage raw = some inv →
      inv.method = "CANCEL" → s.held = some cal →
      cancelTarget P cal (inv.master.recurrenceIdValue P) = some c →
      Allowed s (c.recurrenceIdValue P) (c.sequenceValue + 1)
  | .update req =>
    ∀ cal id c, s.held = some cal → req.recurrenceId = some id → cal.override P id = some c →
      (OccurrenceOp.edit req.fields false).IdStays P c
  | .deleteOccurrence _ => ∀ email, party.identity = some email → ilike P email party.organizer = false
  | _ => True

end System

variable {P : Platform} {party : Party P} {s t : HeldEvent} {cal cal' : Calendar}
  {id : RecurrenceId} {c c' m : Component}

/-! ### The invariant -/

/-- The bound, the organizer of every component held, and what is known of a message that
arrived. -/
structure Inv (P : Platform) (party : Party P) (s : HeldEvent) : Prop where
  bounded : SequenceBounded P s
  organized : ∀ cal, s.held = some cal → ∀ c ∈ cal.vevents, Organized P party c
  inbox : ∀ raw ∈ s.inbox, ∀ c ∈ raw.vevents,
    Organized P party c ∧ (c.recurrenceIdValue P, c.sequenceValue) ∈ s.received

theorem Inv.of_held (h : Inv P party s) {locals : List RecurrenceId} (hall : ∀ c ∈ cal'.vevents,
      Allowed { s with held := some cal', locals := locals } (c.recurrenceIdValue P) c.sequenceValue ∧
        Organized P party c) :
    Inv P party { s with held := some cal', locals := locals } := by
  refine ⟨?_, ?_, h.inbox⟩
  · intro cal hcal c hc
    cases hcal
    exact (hall c hc).1
  · intro cal hcal c hc
    cases hcal
    exact (hall c hc).2

theorem Allowed.mono {key : ComponentKey} {n : ℤ} (h : Allowed s key n)
    (hreceived : t.received = s.received) (hlocals : ∀ id, id ∈ s.locals → id ∈ t.locals) :
    Allowed t key n := by
  unfold Allowed AtLeast at h ⊢
  rw [hreceived]
  rcases h with h | ⟨id, hid, hkey, h⟩
  · exact .inl h
  · exact .inr ⟨id, hlocals id hid, hkey, h⟩

/-- A change that leaves a component's id, SEQUENCE and ORGANIZER as they are. -/
structure Frames (P : Platform) (c c' : Component) : Prop where
  key : c'.recurrenceIdValue P = c.recurrenceIdValue P
  sequence : c'.sequenceValue = c.sequenceValue
  organizer : c'.organizer = c.organizer

theorem Frames.organized (h : Frames P c c') (hc : Organized P party c) :
    Organized P party c' := by
  unfold Organized
  rw [h.organizer]
  exact hc

theorem mem_withLocal {k : RecurrenceId} {locals : List RecurrenceId} (h : k ∈ locals) :
    k ∈ withLocal P cal id locals := by
  unfold withLocal
  split
  · exact List.mem_cons_of_mem _ h
  · exact h

theorem clonedFor_key : (m.clonedFor id).recurrenceIdValue P = some (cloneId id) := by
  cases id with
  | day d => rfl
  | instant s => rfl
  | localTime s => rfl

theorem Inv.master (h : Inv P party s) (hheld : s.held = some cal) (hm : cal.master = some m) :
    AtLeast s none m.sequenceValue := by
  have hbound := h.bounded cal hheld m (master_mem hm)
  rw [recurrenceIdValue_eq_none.2 (master_recurrenceId hm)] at hbound
  rcases hbound with h | ⟨id, -, hkey, -⟩
  · exact h
  · cases hkey

theorem Inv.onException (h : Inv P party s) (hheld : s.held = some cal)
    {change : Component → Except EditError Component}
    (hframes : ∀ c c', exceptionFor P cal id = some c → change c = .ok c' → Frames P c c')
    (hrun : cal.onException P id change = .ok cal') :
    Inv P party { s with held := some cal', locals := withLocal P cal id s.locals } := by
  refine h.of_held (onException_all hrun ?_ ?_)
  · intro x hx
    exact ⟨(h.bounded cal hheld x hx).mono rfl fun _ hk => mem_withLocal hk,
      h.organized cal hheld x hx⟩
  · intro c c' htarget hc'
    have hframe := hframes c c' htarget hc'
    rw [hframe.key, hframe.sequence]
    rcases exceptionFor_cases htarget with ho | ⟨ho, m, hm, rfl⟩
    · have hmem := override_mem ho
      exact ⟨(h.bounded cal hheld c hmem).mono rfl fun _ hk => mem_withLocal hk,
        hframe.organized (h.organized cal hheld c hmem)⟩
    · have hmaster : AtLeast s none m.sequenceValue := h.master hheld hm
      refine ⟨.inr ⟨cloneId id, ?_, clonedFor_key, hmaster⟩, ?_⟩
      · show cloneId id ∈ withLocal P cal id s.locals
        unfold withLocal
        rw [ho]
        exact List.mem_cons_self
      · exact hframe.organized (h.organized cal hheld m (master_mem hm))

theorem Inv.onMaster (h : Inv P party s) (hheld : s.held = some cal) {missing : String}
    {change : Component → Except EditError Component}
    (hframes : ∀ m m', cal.master = some m → change m = .ok m' → Frames P m m')
    (hrun : cal.onMaster missing change = .ok cal') :
    Inv P party { s with held := some cal', locals := s.locals } := by
  refine h.of_held (onMaster_all hrun ?_ ?_)
  · intro x hx
    exact ⟨(h.bounded cal hheld x hx).mono rfl fun _ hk => hk, h.organized cal hheld x hx⟩
  · intro m m' hm hm'
    have hframe := hframes m m' hm hm'
    rw [hframe.key, hframe.sequence]
    have hmem := master_mem hm
    exact ⟨(h.bounded cal hheld m hmem).mono rfl fun _ hk => hk,
      hframe.organized (h.organized cal hheld m hmem)⟩

/-! ### What each operation does to its component -/

theorem answered_frames :
    Frames P c (c.answered P email partstat) := ⟨rfl, rfl, rfl⟩

theorem cancelled_frames : Frames P c (c.cancelled false) := ⟨rfl, rfl, rfl⟩

theorem edited_frames {f : FieldOverrides}
    (hstays : c.recurrenceIdValue P ≠ none → (OccurrenceOp.edit f false).IdStays P c)
    (h : applyFieldOverrides P c f false = .ok c') : Frames P c c' := by
  obtain ⟨dtstart, dtend, rrule, hstart, -, -, rfl⟩ := applyFieldOverrides_ok h
  refine ⟨?_, rfl, rfl⟩
  by_cases hnone : c.recurrenceIdValue P = none
  · rw [hnone, recurrenceIdValue_eq_none]
    exact recurrenceIdValue_eq_none (c := c).1 hnone
  · have hid := hstays hnone
    have hs : OccurrenceOp.startOf P (.edit f false) c = dtstart := by
      unfold OccurrenceOp.startOf
      have hstart' : editedTime P (OccurrenceOp.edit f false).allDay c.timing.dtstart
          c.timing.dtstart (OccurrenceOp.edit f false).dtstart = .ok dtstart := hstart
      rw [hstart']
    unfold OccurrenceOp.IdStays at hid
    rw [hs] at hid
    exact hid

theorem not_bumped (hm : Organized P party m) :
    bumpSequence (organizes P party.identity m) m = false := by
  obtain ⟨o, ho, hemail⟩ := Option.map_eq_some_iff.1 hm
  unfold bumpSequence organizes
  rw [ho]
  cases hi : party.identity with
  | none => rfl
  | some email =>
    have hother := party.other email hi
    rw [← hemail] at hother
    exact decide_eq_false hother

theorem not_bumped_ilike (hm : Organized P party m)
    (hilike : ∀ email, party.identity = some email → ilike P email party.organizer = false) :
    bumpSequence (organizesIlike P party.identity m) m = false := by
  obtain ⟨o, ho, hemail⟩ := Option.map_eq_some_iff.1 hm
  unfold bumpSequence organizesIlike
  rw [ho]
  cases hi : party.identity with
  | none => rfl
  | some email =>
    have hmiss := hilike email hi
    rw [← hemail] at hmiss
    exact hmiss

/-! ### Every operation keeps the invariant -/

theorem write_some {op : Calendar → Except EditError Calendar}
    {locals : Calendar → List RecurrenceId} (h : s.write op locals = some t) :
    ∃ cal cal', s.held = some cal ∧ op cal = .ok cal' ∧
      t = { s with held := some cal', locals := locals cal } := by
  obtain ⟨cal, hheld, h⟩ := Option.bind_eq_some_iff.1 h
  cases hop : op cal with
  | error e =>
    simp only [hop] at h
    cases h
  | ok cal' =>
    simp only [hop] at h
    exact ⟨cal, cal', hheld, hop, (Option.some.inj h).symm⟩

theorem update_inv {req : EventUpdateRequest} (h : Inv P party s) (hheld : s.held = some cal)
    (hstays : ∀ id c, req.recurrenceId = some id → cal.override P id = some c →
      (OccurrenceOp.edit req.fields false).IdStays P c)
    (hrun : updateEvent P party.identity cal req = .ok cal') :
    Inv P party
      { s with held := some cal', locals := localsAfter P cal req.recurrenceId s.locals } := by
  obtain ⟨m, hm, hcase⟩ := updateEvent_cases hrun
  rw [not_bumped (h.organized cal hheld m (master_mem hm))] at hcase
  rcases hcase with ⟨id, -, hid, hrun⟩ | ⟨-, hid, hrun⟩
  · rw [hid]
    refine h.onException hheld (fun c c' htarget hc' => ?_) hrun
    refine edited_frames (fun _ => ?_) hc'
    rcases exceptionFor_cases htarget with ho | ⟨-, m, -, rfl⟩
    · exact hstays id c hid ho
    · unfold OccurrenceOp.IdStays Component.recurrenceIdValue Component.clonedFor
      cases id <;> rfl
  · rw [hid]
    refine h.onMaster hheld (fun m m' hm hm' => edited_frames (fun hkey => ?_) hm') hrun
    exact absurd (recurrenceIdValue_eq_none.2 (master_recurrenceId hm)) hkey

theorem deleteOccurrence_inv (h : Inv P party s) (hheld : s.held = some cal)
    (hilike : ∀ email, party.identity = some email → ilike P email party.organizer = false)
    (hrun : deleteOccurrence P party.identity cal id = .ok cal') :
    Inv P party { s with held := some cal', locals := withLocal P cal id s.locals } := by
  obtain ⟨m, hm, hrun⟩ := deleteOccurrence_cases hrun
  rw [not_bumped_ilike (h.organized cal hheld m (master_mem hm)) hilike] at hrun
  refine h.onException hheld (fun c c' _ hc' => ?_) hrun
  cases hc'
  exact cancelled_frames

theorem setPartstat_inv (h : Inv P party s)
    (hheld : s.held = some cal) (hrun : setPartstat P cal email partstat = .ok cal') :
    Inv P party { s with held := some cal', locals := s.locals } := by
  refine h.onMaster hheld (fun m m' _ hm' => ?_) hrun
  unfold Component.answeredByAttendee at hm'
  split at hm'
  · cases hm'
    exact answered_frames
  · cases hm'

theorem replacePartstat_inv (h : Inv P party s) (hheld : s.held = some cal)
    (hrun : replaceExceptionPartstatOrAdd P cal email partstat id = .ok cal') :
    Inv P party { s with held := some cal', locals := withLocal P cal id s.locals } := by
  refine h.onException hheld (fun c c' _ hc' => ?_) hrun
  cases hc'
  exact answered_frames

theorem respond_inv {rid : Option RecurrenceId} (h : Inv P party s) (hheld : s.held = some cal)
    (hrun : respondToEvent P cal email partstat rid = .ok cal') :
    Inv P party { s with held := some cal', locals := localsAfter P cal rid s.locals } := by
  unfold respondToEvent at hrun
  split at hrun
  · cases hrun
  split at hrun
  · cases rid with
    | some id => exact replacePartstat_inv h hheld hrun
    | none => exact setPartstat_inv h hheld hrun
  · cases hrun

theorem reply_inv {a : Attendee} (h : Inv P party s)
    (hheld : s.held = some cal) (hrun : replied P cal inv a = .ok cal') :
    Inv P party
      { s with
        held := some cal'
        locals := localsAfter P cal (inv.master.recurrenceIdValue P) s.locals } := by
  unfold replied at hrun
  cases hid : inv.master.recurrenceIdValue P with
  | some id =>
    simp only [hid] at hrun
    exact replacePartstat_inv h hheld hrun
  | none =>
    simp only [hid] at hrun
    exact setPartstat_inv h hheld hrun

theorem fixed_mem {x : Component} (hx : x ∈ (fixed raw).vevents) :
    ∃ c ∈ raw.vevents, x.recurrenceIdValue P = c.recurrenceIdValue P ∧
      x.sequenceValue = c.sequenceValue ∧
      x.organizer.map Organizer.email = c.organizer.map Organizer.email := by
  obtain ⟨c, hc, rfl⟩ := List.mem_map.1 hx
  refine ⟨c, hc, rfl, rfl, ?_⟩
  cases c.organizer with
  | none => rfl
  | some o => rfl

theorem Inv.message (h : Inv P party s) (hraw : raw ∈ s.inbox) {x : Component}
    (hx : x ∈ (fixed raw).vevents) (hreceived : t.received = s.received) :
    Allowed t (x.recurrenceIdValue P) x.sequenceValue ∧ Organized P party x := by
  obtain ⟨c, hc, hkey, hseq, horg⟩ := fixed_mem (P := P) hx
  obtain ⟨hcorg, hmem⟩ := h.inbox raw hraw c hc
  refine ⟨.inl ⟨(c.recurrenceIdValue P, c.sequenceValue), ?_, hkey.symm, ?_⟩, ?_⟩
  · rw [hreceived]
    exact hmem
  · exact Int.le_of_eq hseq
  · unfold Organized
    rw [horg]
    exact hcorg

/-- An import keeps the bound on sequence numbers. -/
theorem import_inv (h : Inv P party s) (hheld : s.held = some cal) (hraw : raw ∈ s.inbox)
    (hcancel : inv.method = "CANCEL" → ∀ c,
      cancelTarget P cal (inv.master.recurrenceIdValue P) = some c →
        Allowed s (c.recurrenceIdValue P) (c.sequenceValue + 1))
    (hrun : importInto P cal raw inv = .ok cal') :
    Inv P party { s with held := some cal', locals := localsImported P inv s.locals } := by
  unfold importInto at hrun
  split at hrun
  · cases hrun
  split at hrun
  · rename_i hmethod
    have hlocals : localsImported P inv s.locals = s.locals := by
      unfold localsImported
      rw [if_pos hmethod]
    rw [hlocals]
    have hbump : ∀ c : Component, c.organizer.map Organizer.email = some party.organizer →
        Organized P party (c.cancelled true) := fun c hc => hc
    have hold : ∀ x ∈ cal.vevents,
        Allowed { s with held := some cal', locals := s.locals } (x.recurrenceIdValue P)
          x.sequenceValue ∧ Organized P party x :=
      fun x hx => ⟨h.bounded cal hheld x hx, h.organized cal hheld x hx⟩
    cases hid : inv.master.recurrenceIdValue P with
    | some id =>
      simp only [hid] at hrun hcancel
      refine h.of_held (onException_all hrun hold fun c c' htarget hc' => ?_)
      cases hc'
      refine ⟨hcancel hmethod c htarget, ?_⟩
      rcases exceptionFor_cases htarget with ho | ⟨-, m, hm, rfl⟩
      · exact hbump c (h.organized cal hheld c (override_mem ho))
      · exact hbump _ (h.organized cal hheld m (master_mem hm))
    | none =>
      simp only [hid] at hrun hcancel
      refine h.of_held (onMaster_all hrun hold fun m m' hm hm' => ?_)
      cases hm'
      exact ⟨hcancel hmethod m hm, hbump m (h.organized cal hheld m (master_mem hm))⟩
  · rename_i hmethod
    unfold localsImported
    rw [if_neg hmethod]
    cases hid : inv.master.recurrenceIdValue P with
    | none =>
      simp only [hid] at hrun
      cases hrun
      exact h.of_held fun x hx => h.message hraw hx rfl
    | some id =>
      simp only [hid] at hrun
      unfold mergeException at hrun
      cases hv : (fixed raw).vevents with
      | nil =>
        simp only [hv] at hrun
        cases hrun
      | cons first rest =>
        simp only [hv] at hrun
        cases hrun
        refine h.of_held fun x hx => ?_
        rcases List.mem_append.1 hx with hx | hx
        · obtain ⟨hxmem, hxid⟩ := List.mem_filter.1 hx
          refine ⟨?_, h.organized cal hheld x hxmem⟩
          rcases h.bounded cal hheld x hxmem with hb | ⟨k, hk, hkey, hb⟩
          · exact .inl hb
          · refine .inr ⟨k, List.mem_filter.2 ⟨hk, decide_eq_true ?_⟩, hkey, hb⟩
            rintro rfl
            rw [names_iff.2 hkey] at hxid
            exact absurd hxid (by decide)
        · rw [List.mem_singleton.1 hx]
          exact h.message hraw (by rw [hv]; exact List.mem_cons_self) rfl

theorem receive_inv (h : Inv P party s) (horg : ∀ c ∈ raw.vevents, Organized P party c) :
    Inv P party { s with
      inbox := s.inbox ++ [raw]
      received := s.received ++
        raw.vevents.map fun c => (c.recurrenceIdValue P, c.sequenceValue) } := by
  have hmore : ∀ {key : ComponentKey} {n : ℤ}, AtLeast s key n →
      AtLeast { s with
        inbox := s.inbox ++ [raw]
        received := s.received ++
          raw.vevents.map fun c => (c.recurrenceIdValue P, c.sequenceValue) } key n := by
    rintro key n ⟨r, hr, hkey, hn⟩
    exact ⟨r, List.mem_append_left _ hr, hkey, hn⟩
  refine ⟨?_, h.organized, ?_⟩
  · intro cal hheld c hc
    rcases h.bounded cal hheld c hc with hb | ⟨k, hk, hkey, hb⟩
    · exact .inl (hmore hb)
    · exact .inr ⟨k, hk, hkey, hmore hb⟩
  · intro msg hmsg c hc
    rcases List.mem_append.1 hmsg with hmsg | hmsg
    · obtain ⟨ho, hr⟩ := h.inbox msg hmsg c hc
      exact ⟨ho, List.mem_append_left _ hr⟩
    · rw [List.mem_singleton.1 hmsg] at hc
      exact ⟨horg c hc, List.mem_append_right _ (List.mem_map.2 ⟨c, hc, rfl⟩)⟩

/-- Every step that keeps the bound keeps what it rests on. -/
theorem inv_step {l : HeldLabel} (h : Inv P party s) (hp : KeepsBound P party s l)
    (hstep : s.step P party l = some t) : Inv P party t := by
  cases l with
  | receive raw =>
    simp only [HeldEvent.step] at hstep
    split at hstep
    · rename_i horg
      cases hstep
      exact receive_inv h horg
    · cases hstep
  | importMessage i =>
    obtain ⟨raw, hraw, hstep⟩ := Option.bind_eq_some_iff.1 hstep
    obtain ⟨inv, hinv, hstep⟩ := Option.bind_eq_some_iff.1 hstep
    have hmem : raw ∈ s.inbox := List.mem_of_getElem? hraw
    cases hheld : s.held with
    | some cal =>
      simp only [hheld] at hstep
      obtain ⟨cal', b, hheld', hrun, rfl⟩ := write_some hstep
      rw [hheld, Option.some.injEq] at hheld'
      subst hheld'
      exact import_inv h hheld hmem
        (fun hmethod c hc => hp raw inv cal c hraw hinv hmethod hheld hc) hrun
    | none =>
      simp only [hheld] at hstep
      split at hstep
      · cases hstep
      · cases hstep
        exact h.of_held fun x hx => h.message hmem hx rfl
  | update req =>
    obtain ⟨cal, cal', hheld, hrun, rfl⟩ := write_some hstep
    exact update_inv h hheld (fun id c hid hover => hp cal id c hheld hid hover) hrun
  | deleteOccurrence id =>
    obtain ⟨cal, cal', hheld, hrun, rfl⟩ := write_some hstep
    exact deleteOccurrence_inv h hheld hp hrun
  | delete =>
    obtain ⟨cal, hheld, rfl⟩ := Option.map_eq_some_iff.1 hstep
    exact ⟨fun cal hcal => (by cases hcal), fun cal hcal => (by cases hcal), h.inbox⟩
  | respond email partstat id =>
    obtain ⟨cal, cal', hheld, hrun, rfl⟩ := write_some hstep
    exact respond_inv h hheld hrun
  | reply inv a =>
    obtain ⟨cal, cal', hheld, hrun, rfl⟩ := write_some hstep
    exact reply_inv h hheld hrun

theorem inv_reachable (h : (heldSystem P party).Reachable (KeepsBound P party) s) :
    Inv P party s := by
  refine h.invariant ?_ fun s l t hs hp hst => inv_step hs hp hst
  intro s hs
  have hs : s = { held := none, inbox := [], received := [], locals := [] } := hs
  rw [hs]
  refine ⟨fun cal hcal => ?_, fun cal hcal => ?_, fun raw hraw => ?_⟩
  · cases hcal
  · cases hcal
  · cases hraw

theorem Inv.not_stale (h : Inv P party s) {o : DavObject} (hheld : s.held = some o.data)
    (hinv : ∀ r ∈ s.received, r.2 ≤ inv.master.sequenceValue) : isStale P o inv = false := by
  have hbelow : ∀ c ∈ o.data.vevents, ¬ inv.master.sequenceValue < c.sequenceValue := by
    intro c hc hlt
    rcases h.bounded o.data hheld c hc with ⟨r, hr, -, hle⟩ | ⟨-, -, -, r, hr, -, hle⟩
    · have hr := hinv r hr
      omega
    · have hr := hinv r hr
      omega
  unfold isStale
  split
  · rfl
  · rename_i m exceptions hparse
    obtain ⟨hm, hexceptions⟩ := parse_master hparse
    split
    · exact decide_eq_false (hbelow m (master_mem hm))
    · split
      · rfl
      · rename_i c hc
        have hmem := List.mem_of_find?_eq_some hc
        rw [hexceptions] at hmem
        exact decide_eq_false (hbelow c (List.mem_filter.1 hmem).1)

theorem decideNew_not_stale {D : Directory} {accountId : Uuid} :
    (decideNew P D accountId inv).status ≠ .ignoredStale := by
  unfold decideNew
  repeat' split
  all_goals exact IntakeStatus.noConfusion

/-- **The organizer's updates are not lost as stale while no CANCEL outruns them**: the SEQUENCE
stored for a component is within what was received for it (for an exception made here, for the
master), and a REQUEST with at least that of everything received is not `ignored_stale`. -/
theorem sequence_never_exceeds_received
    (h : (heldSystem P party).Reachable (KeepsBound P party) s) :
    SequenceBounded P s ∧
      ∀ (D : Directory) (objects : Objects) (msg : Message) (inv : ParsedInvitation),
        (∀ r ∈ s.received, r.2 ≤ inv.master.sequenceValue) →
        (∀ o, findByUidReachable D objects inv.master.uid msg.accountId = some o →
          s.held = some o.data) →
        (decideOn P D objects msg inv).status ≠ .ignoredStale := by
  have hinv := inv_reachable h
  refine ⟨hinv.bounded, fun D objects msg inv hseq hheld => ?_⟩
  unfold decideOn
  cases hfind : findByUidReachable D objects inv.master.uid msg.accountId with
  | some o =>
    have hstale := hinv.not_stale (hheld o hfind) hseq
    dsimp only
    rw [hstale]
    split
    · exact IntakeStatus.noConfusion
    · split
      · split
        · exact IntakeStatus.noConfusion
        · exact IntakeStatus.noConfusion
      · exact IntakeStatus.noConfusion
  | none =>
    dsimp only
    split
    · exact IntakeStatus.noConfusion
    · exact decideNew_not_stale

/-! ### A cancellation imported once, and again -/

def boss : Organizer := { email := "boss@office.example", cn := none, scheduleAgent := none }

def office : Party utcPlatform where
  organizer := "boss@office.example"
  identity := some "me@office.example"
  other := by
    intro email h
    cases h
    decide

def bossMail (method : String) (sequence : ℤ) : Calendar :=
  { method := some method
    vevents := [{ standup with organizer := some boss, sequence := some sequence }] }

def bossCopy (sequence : ℤ) (status : Option EventStatus) : Calendar :=
  { method := none
    vevents := [{ standup with
      organizer := some { boss with scheduleAgent := some "CLIENT" }
      sequence := some sequence, status := status }] }

/-- The invitation and its cancellation have arrived, the copy is at `sequence`. -/
def bossState (sequence : ℤ) (status : Option EventStatus) : HeldEvent :=
  { held := some (bossCopy sequence status)
    inbox := [bossMail "REQUEST" 0, bossMail "CANCEL" 1]
    received := [(none, 0), (none, 1)]
    locals := [] }

def emptyState : HeldEvent := { held := none, inbox := [], received := [], locals := [] }

def bossArrivals : List HeldLabel :=
  [.receive (bossMail "REQUEST" 0), .importMessage 0, .receive (bossMail "CANCEL" 1)]

theorem bossArrivals_run :
    (heldSystem utcPlatform office).Reachable (KeepsBound utcPlatform office)
      (bossState 0 none) := by
  have h0 : (heldSystem utcPlatform office).Reachable (KeepsBound utcPlatform office) emptyState :=
    .init rfl
  have h1 := h0.step (l := HeldLabel.receive (bossMail "REQUEST" 0)) trivial rfl
  have h2 := h1.step (l := HeldLabel.importMessage 0) (by
    intro raw inv cal c hraw hinv hcancel
    cases hraw
    cases hinv
    exact absurd hcancel (by decide)) rfl
  exact h2.step (l := HeldLabel.receive (bossMail "CANCEL" 1)) trivial rfl

theorem cancelled_once_within_bound :
    SequenceBounded utcPlatform (bossState 1 (some .cancelled)) := by
  refine (sequence_never_exceeds_received
    (bossArrivals_run.step (l := HeldLabel.importMessage 1) ?_ rfl)).1
  intro raw inv cal c hraw hinv _ hheld hc
  cases hraw
  cases hinv
  cases hheld
  cases hc
  exact .inl ⟨(none, 1), by decide, rfl, by decide⟩

/-- The cancellation imported three times: SEQUENCE has passed what the organizer sent,
and the REQUEST that puts the series back is dropped. -/
theorem cancelled_thrice_drops_update :
    (heldSystem utcPlatform office).Reachable TransitionSystem.anyStep
        (bossState 3 (some .cancelled)) ∧
      ¬ SequenceBounded utcPlatform (bossState 3 (some .cancelled)) ∧
      (decideOn utcPlatform
          ⟨[⟨1, 1, "me@office.example"⟩], [⟨1, 1, true, false, false⟩], [⟨1, some 1, true⟩],
            [⟨1, true⟩]⟩
          ⟨[⟨1, 1, 1, some "standup", bossCopy 3 (some .cancelled), false⟩], List.nodup_singleton _⟩
          ⟨1, "update", some "boss@office.example"⟩
          ⟨"REQUEST", { standup with organizer := some boss, sequence := some 2 }⟩).status
        = .ignoredStale := by
  refine ⟨?_, ?_, rfl⟩
  · exact TransitionSystem.reachable_of_exec_any (s := emptyState)
      (bossArrivals ++ [.importMessage 1, .importMessage 1, .importMessage 1]) rfl rfl
  · intro h
    rcases h _ rfl _ List.mem_cons_self with ⟨r, hr, -, hle⟩ | ⟨id, hid, -⟩
    · have hr' : r = (none, 0) ∨ r = (none, 1) := by simpa [bossState] using hr
      rcases hr' with rfl | rfl
      · exact absurd hle (by decide)
      · exact absurd hle (by decide)
    · cases hid

end MailVerdict.Analysis.SequenceBound
