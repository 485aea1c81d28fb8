import MailVerdict.Analysis.ReplyIntake
import MailVerdict.Model.IntakeRuns

/-!
# What intake writes for one message

A row found pending is taken for an attempt that never wrote. That is so while no other
attempt is past the gate and none has died between its write and the promotion of the
row; then the message gets at most one object, and its row says what was written. The
run at the end has such a death: the row is pending, the object is there, and the next
delivery creates a second.
-/

namespace MailVerdict.Analysis.IntakeOnce

open MailVerdict.Computation Model.Ical Model.Invitations
open Model.CalendarEvents Model.IntakeRuns
open Analysis.IcalBodies Analysis.ReplyIntake

universe u

section

variable {I : Type u} (P : Platform) (D : Directory) (M : Mail)

def createdOne (s : State I) : Bool := s.log.any Written.created

/-- The body carries the answer: an attendee line of that address with that PARTSTAT. -/
def Answered (data : Calendar) (a : Attendee) : Prop :=
  ∃ c ∈ data.vevents, ∃ x ∈ c.attendees, P.lower x.email = P.lower a.email ∧
    Attendee.partstatValue x = Attendee.partstatValue a

def Quiescent (s : State I) : Prop := ∀ i, s.phase i = .idle ∨ s.phase i = .done

/-- At most one object is created for the message, a REPLY whose row reads `updated` has
written its PARTSTAT, and once nothing is under way the row of a message something was
written for has the status and the object of what was written. -/
structure AppliedOnce (s : State I) : Prop where
  once : (s.log.filter Written.created).length ≤ 1
  answered : M.inv.method = "REPLY" → ∀ r, s.row M = some r → r.status = .updated →
    ∀ a, M.inv.master.attendees.head? = some a → ∃ w ∈ s.log, Answered P w.data a
  settled : Quiescent s → s.log ≠ [] →
    ∃ r, s.row M = some r ∧ r.status ≠ .pending ∧
      ∃ w ∈ s.log, r.status = w.status ∧ r.objectId = some w.objectId

/-- The condition on steps. A delivery inserts the gate row while no import is under way; one that
is to create an object passes the gate while also no other is about to, and nothing written is
unrecorded. When an import begins there is none of these, and it finds the object if one was
created. A REPLY for one occurrence is written where its sender is an attendee. And nothing dies
between writing its object and recording it. -/
def Guarded (s : State I) : Label I → Prop
  | .gate i => ∀ d, s.phase i = .decided d →
      (s.row M = none → ∀ j, (s.phase j).importing = false) ∧
        (d.status = .imported → rowOpen (s.row M) = true →
          ∀ j, (s.phase j).mayCreate = false ∧ (s.phase j).unrecorded = false)
  | .write i => ∀ d o id a, s.phase i = .gated d → d.existing = some o →
      M.inv.master.recurrenceIdValue P = some id → M.inv.master.attendees.head? = some a →
        ∀ c, exceptionFor P o.data id = some c → c.isAttendee P a.email = true
  | .find _ => (∀ j, (s.phase j).mayCreate = false) ∧
      (createdOne s = true → (findByUidAnywhere s.store.objects M.inv.master.uid).isSome = true)
  | .crash i => (s.phase i).unrecorded = false
  | _ => True

end

/-! ### The invariant -/

section

variable {I : Type u} (P : Platform) (D : Directory) (M : Mail)

def PhaseOk (row : Option IntakeRow) (log : List Written) : Phase → Prop
  | .idle => True
  | .decided d => ∃ objects, d = decideOn P D objects M.msg M.inv
  | .gated d => (∃ objects, d = decideOn P D objects M.msg M.inv) ∧ row.isSome = true ∧
      (d.status = .imported → log.any Written.created = false)
  | .wrote w => w ∈ log ∧ row.isSome = true
  | .found existing => existing = none → log.any Written.created = false
  | .imported w _ => w ∈ log
  | .checked w _ present => w ∈ log ∧ row.isSome = present
  | .done => True

def Records (row : Option IntakeRow) (w : Written) : Prop :=
  ∃ r, row = some r ∧ r.status = w.status ∧ r.objectId = some w.objectId

/-- What a write for the message may be: an answer it claims is in the body. -/
def EntryOk (w : Written) : Prop :=
  w.status ≠ .pending ∧ (M.inv.method = "REPLY" → w.status = .updated →
    ∀ a, M.inv.master.attendees.head? = some a → Answered P w.data a)

structure Inv (s : State I) : Prop where
  phases : ∀ i, PhaseOk P D M (s.row M) s.log (s.phase i)
  single : ∀ i j, (s.phase i).mayCreate = true → (s.phase j).mayCreate = true → i = j
  entries : ∀ w ∈ s.log, EntryOk P M w
  recorded : s.log ≠ [] →
    (∃ i, (s.phase i).unrecorded = true) ∨ ∃ w ∈ s.log, Records (s.row M) w
  updated : ∀ r, s.row M = some r → r.status = .updated → ∃ w ∈ s.log, w.status = .updated
  once : (s.log.filter Written.created).length ≤ 1

end

section

variable {I : Type u} {P : Platform} {D : Directory} {M : Mail} {s t : State I}
  {row row' : Option IntakeRow} {log : List Written} {p : Phase} {w : Written}

theorem Inv.appliedOnce (h : Inv P D M s) : AppliedOnce P M s := by
  refine ⟨h.once, fun hreply r hr hstatus a ha => ?_, fun hquiet hlog => ?_⟩
  · obtain ⟨w, hw, hupdated⟩ := h.updated r hr hstatus
    exact ⟨w, hw, (h.entries w hw).2 hreply hupdated a ha⟩
  · rcases h.recorded hlog with ⟨i, hi⟩ | ⟨w, hw, r, hr, hstatus, hobject⟩
    · rcases hquiet i with hphase | hphase
      · rw [hphase] at hi
        cases hi
      · rw [hphase] at hi
        cases hi
    · refine ⟨r, hr, ?_, w, hw, hstatus, hobject⟩
      rw [hstatus]
      exact (h.entries w hw).1

theorem PhaseOk.of_row (h : PhaseOk P D M row log p) (hrow : row'.isSome = row.isSome) :
    PhaseOk P D M row' log p := by
  cases p <;> simp only [PhaseOk, hrow] at h ⊢ <;> exact h

theorem PhaseOk.of_insert (h : PhaseOk P D M row log p) (hrow : row'.isSome = true)
    (hp : p.importing = false) : PhaseOk P D M row' log p := by
  cases p with
  | gated d => exact ⟨h.1, hrow, h.2.2⟩
  | wrote w => exact ⟨h.1, hrow⟩
  | found e => cases hp
  | imported w t => cases hp
  | checked w t b => cases hp
  | idle => trivial
  | decided d => exact h
  | done => trivial

theorem PhaseOk.of_append (h : PhaseOk P D M row log p)
    (hp : w.created = true → p.mayCreate = false) : PhaseOk P D M row (log ++ [w]) p := by
  have hany : (log ++ [w]).any Written.created = (log.any Written.created || w.created) := by
    rw [List.any_append, List.any_cons, List.any_nil, Bool.or_false]
  have hmem : ∀ {x}, x ∈ log → x ∈ log ++ [w] := fun hx => List.mem_append_left _ hx
  have hcreated : ∀ {q : Prop}, (w.created = true → ¬ q) →
      (q → log.any Written.created = false) → q → (log ++ [w]).any Written.created = false := by
    intro q hw hnone hq
    rw [hany, hnone hq, Bool.false_or]
    exact Bool.eq_false_iff.2 fun htrue => hw htrue hq
  cases p with
  | gated d =>
    refine ⟨h.1, h.2.1, hcreated (fun htrue himported => ?_) h.2.2⟩
    have hfalse := hp htrue
    rw [Phase.mayCreate, himported] at hfalse
    cases hfalse
  | wrote x => exact ⟨hmem h.1, h.2⟩
  | found e => exact hcreated (fun htrue _ => by cases hp htrue) h
  | imported x t => exact hmem h
  | checked x t b => exact ⟨hmem h.1, h.2⟩
  | idle => trivial
  | decided d => exact h
  | done => trivial

variable [DecidableEq I] {i : I}

theorem to_phase_self : (s.to i p).phase i = p := by
  show Function.update s.phase i p i = p
  exact Function.update_self i p s.phase

theorem to_phase_of_ne {j : I} (h : j ≠ i) : (s.to i p).phase j = s.phase j := by
  show Function.update s.phase i p j = s.phase j
  exact Function.update_of_ne h p s.phase

theorem to_forall {q : Phase → Prop} (h : ∀ j, q (s.phase j)) (hp : q p) :
    ∀ j, q ((s.to i p).phase j) := by
  intro j
  by_cases hj : j = i
  · rw [hj, to_phase_self]
    exact hp
  · rw [to_phase_of_ne hj]
    exact h j

theorem to_single (h : ∀ j k, (s.phase j).mayCreate = true → (s.phase k).mayCreate = true → j = k)
    (hp : p.mayCreate = true → (s.phase i).mayCreate = true ∨ ∀ j, (s.phase j).mayCreate = false) :
    ∀ j k, ((s.to i p).phase j).mayCreate = true → ((s.to i p).phase k).mayCreate = true → j = k := by
  have hother : ∀ j, j ≠ i → (s.phase j).mayCreate = true → p.mayCreate = true → False := by
    intro j hj hphase hpc
    rcases hp hpc with hi | hnone
    · exact hj (h j i hphase hi)
    · rw [hnone j] at hphase
      cases hphase
  intro j k hj hk
  by_cases hji : j = i
  · by_cases hki : k = i
    · rw [hji, hki]
    · rw [hji, to_phase_self] at hj
      rw [to_phase_of_ne hki] at hk
      exact (hother k hki hk hj).elim
  · rw [to_phase_of_ne hji] at hj
    by_cases hki : k = i
    · rw [hki, to_phase_self] at hk
      exact (hother j hji hj hk).elim
    · rw [to_phase_of_ne hki] at hk
      exact h j k hj hk

theorem Inv.to (h : Inv P D M s) (hok : PhaseOk P D M (s.row M) s.log p)
    (hp : p.mayCreate = true → (s.phase i).mayCreate = true ∨ ∀ j, (s.phase j).mayCreate = false)
    (hu : (s.phase i).unrecorded = true → p.unrecorded = true) : Inv P D M (s.to i p) := by
  refine ⟨to_forall h.phases hok, to_single h.single hp, h.entries, fun hlog => ?_, h.updated,
    h.once⟩
  rcases h.recorded hlog with ⟨j, hj⟩ | hrecorded
  · by_cases hji : j = i
    · rw [hji] at hj
      exact .inl ⟨i, by rw [to_phase_self]; exact hu hj⟩
    · exact .inl ⟨j, by rw [to_phase_of_ne hji]; exact hj⟩
  · exact .inr hrecorded

omit [DecidableEq I] in
theorem Inv.of_row (h : Inv P D M s) (hphase : t.phase = s.phase) (hlog : t.log = s.log)
    (hrow : t.row M = s.row M) : Inv P D M t := by
  refine ⟨?_, ?_, ?_, ?_, ?_, ?_⟩
  · rw [hphase, hlog, hrow]
    exact h.phases
  · rw [hphase]
    exact h.single
  · rw [hlog]
    exact h.entries
  · rw [hphase, hlog, hrow]
    exact h.recorded
  · rw [hlog, hrow]
    exact h.updated
  · rw [hlog]
    exact h.once

omit [DecidableEq I] in
theorem Inv.log_nil (h : Inv P D M s) (hrow : s.row M = none)
    (hquiet : ∀ j, (s.phase j).importing = false) : s.log = [] := by
  by_contra hlog
  rcases h.recorded hlog with ⟨j, hj⟩ | ⟨w, -, r, hr, -⟩
  · have hok := h.phases j
    have himporting := hquiet j
    cases hphase : s.phase j with
    | wrote w =>
      rw [hphase, hrow] at hok
      cases hok.2
    | imported w t | checked w t b => rw [hphase] at himporting; cases himporting
    | idle | decided d | gated d | found e | done => rw [hphase] at hj; cases hj
  · rw [hrow] at hr
    cases hr

omit [DecidableEq I] in
theorem Inv.insertRow (h : Inv P D M s) (hphase : t.phase = s.phase) (hlog : t.log = s.log)
    (hnone : s.row M = none) {r : IntakeRow} (hrow : t.row M = some r) (hr : r.status ≠ .updated)
    (hquiet : ∀ j, (s.phase j).importing = false) : Inv P D M t := by
  have hnil := h.log_nil hnone hquiet
  refine ⟨?_, ?_, ?_, fun hne => ?_, fun r' hr' hupdated => ?_, ?_⟩
  · rw [hphase, hlog, hrow]
    exact fun j => (h.phases j).of_insert rfl (hquiet j)
  · rw [hphase]
    exact h.single
  · rw [hlog]
    exact h.entries
  · exact absurd (hlog.trans hnil) hne
  · rw [hrow, Option.some.injEq] at hr'
    subst hr'
    exact absurd hupdated hr
  · rw [hlog]
    exact h.once

theorem Inv.append (h : Inv P D M s) (hphase : t.phase = (s.to i p).phase)
    (hlog : t.log = s.log ++ [w]) (hrow : t.row M = s.row M)
    (hok : PhaseOk P D M (s.row M) (s.log ++ [w]) p) (hp : p.unrecorded = true)
    (hmay : p.mayCreate = true → (s.phase i).mayCreate = true) (hentry : EntryOk P M w)
    (hcreated : w.created = true →
      (s.phase i).mayCreate = true ∧ s.log.any Written.created = false) : Inv P D M t := by
  refine ⟨?_, ?_, fun x hx => ?_, fun _ => .inl ⟨i, ?_⟩, fun r hr hupdated => ?_, ?_⟩
  · rw [hphase, hlog, hrow]
    intro j
    by_cases hj : j = i
    · rw [hj, to_phase_self]
      exact hok
    · rw [to_phase_of_ne hj]
      refine (h.phases j).of_append fun htrue => ?_
      rw [Bool.eq_false_iff]
      exact fun hjmay => hj (h.single j i hjmay (hcreated htrue).1)
  · rw [hphase]
    exact to_single h.single fun hpmay => .inl (hmay hpmay)
  · rw [hlog] at hx
    rcases List.mem_append.1 hx with hx | hx
    · exact h.entries x hx
    · rw [List.mem_singleton.1 hx]
      exact hentry
  · rw [hphase, to_phase_self]
    exact hp
  · rw [hrow] at hr
    obtain ⟨x, hx, hstatus⟩ := h.updated r hr hupdated
    rw [hlog]
    exact ⟨x, List.mem_append_left _ hx, hstatus⟩
  · rw [hlog, List.filter_append, List.length_append]
    cases hw : w.created with
    | false =>
      rw [List.filter_cons_of_neg (by rw [hw]; exact Bool.false_ne_true)]
      exact h.once
    | true =>
      have hnone : s.log.filter Written.created = [] := by
        rw [List.filter_eq_nil_iff]
        intro x hx hxc
        have hany := (hcreated hw).2
        rw [List.any_eq_false] at hany
        exact hany x hx hxc
      rw [hnone, List.filter_cons_of_pos hw]
      exact Nat.le_refl 1

theorem Inv.record (h : Inv P D M s) (hphase : t.phase = (s.to i .done).phase)
    (hlog : t.log = s.log) {r : IntakeRow} (hrow : t.row M = some r) (hw : w ∈ s.log)
    (hstatus : r.status = w.status) (hobject : r.objectId = some w.objectId)
    (hbefore : (s.row M).isSome = true ∨ (s.phase i).importing = true) : Inv P D M t := by
  refine ⟨?_, ?_, ?_, fun _ => .inr ⟨w, ?_, r, hrow, hstatus, hobject⟩,
    fun r' hr' hupdated => ?_, ?_⟩
  · rw [hphase, hlog, hrow]
    intro j
    by_cases hj : j = i
    · rw [hj, to_phase_self]
      trivial
    · rw [to_phase_of_ne hj]
      rcases hbefore with hsome | himporting
      · exact (h.phases j).of_row hsome.symm
      · refine (h.phases j).of_insert rfl (Bool.eq_false_iff.2 fun hjimporting => hj ?_)
        have hmay : ∀ q : Phase, q.importing = true → q.mayCreate = true := by
          intro q hq
          cases q <;> first | exact hq | cases hq
        exact h.single j i (hmay _ hjimporting) (hmay _ himporting)
  · rw [hphase]
    exact to_single h.single fun hpmay => by cases hpmay
  · rw [hlog]
    exact h.entries
  · rw [hlog]
    exact hw
  · rw [hrow, Option.some.injEq] at hr'
    subst hr'
    rw [hlog]
    exact ⟨w, hw, hstatus ▸ hupdated⟩
  · rw [hlog]
    exact h.once

end

/-! ### What the code writes -/

section

variable {P : Platform} {D : Directory} {M : Mail} {inv : ParsedInvitation} {data data' : Calendar}
  {a : Attendee} {raw : Calendar} {rows : IntakeRows} {row : IntakeRow}

theorem createIfAbsent_cases :
    (rows.find? row.key = none ∧ (createIfAbsent rows row).1.find? row.key = some row ∧
        (createIfAbsent rows row).2 = (row, true)) ∨
      ∃ r, rows.find? row.key = some r ∧ createIfAbsent rows row = (rows, r, false) := by
  unfold createIfAbsent
  by_cases h : row.key ∈ rows.rows.map IntakeRow.key
  · rw [dif_pos h]
    cases hfind : rows.find? row.key with
    | none =>
      obtain ⟨r, hr, hkey⟩ := List.mem_map.1 h
      exact absurd hkey (KeyedTable.find?_eq_none_iff.1 hfind r hr)
    | some r => exact .inr ⟨r, rfl, rfl⟩
  · rw [dif_neg h]
    refine .inl ⟨?_, ?_, rfl⟩
    · rw [KeyedTable.find?_eq_none_iff]
      exact fun r hr hkey => h (List.mem_map.2 ⟨r, hr, hkey⟩)
    · exact KeyedTable.find?_eq_some_iff.2 ⟨(KeyedTable.mem_insert h).2 (.inr rfl), rfl⟩

theorem decideOn_updated {objects : Objects} {msg : Message}
    (h : (decideOn P D objects msg inv).status = .updated) :
    ∃ a, inv.master.attendees.head? = some a := by
  unfold decideOn at h
  split at h
  · rename_i o _
    split at h
    · cases h
    · split at h
      · split at h
        · rename_i hauthorized
          obtain ⟨a, sender, ha, -⟩ := authorized_attendee hauthorized
          exact ⟨a, ha⟩
        · cases h
      · split at h
        · cases h
        · cases h
  · split at h
    · cases h
    · unfold decideNew unlinked at h
      repeat' split at h
      all_goals cases h

theorem answered_line {c : Component} {email : String} {partstat : Partstat}
    (h : c.isAttendee P email = true) :
    ∃ x ∈ (c.answered P email partstat).attendees,
      P.lower x.email = P.lower email ∧ Attendee.partstatValue x = partstat := by
  obtain ⟨x, hx, hemail⟩ := List.any_eq_true.1 h
  have hemail : P.lower x.email = P.lower email := decide_eq_true_iff.1 hemail
  refine ⟨{ x with partstat := some partstat }, ?_, hemail, rfl⟩
  show _ ∈ c.attendees.map _
  refine List.mem_map.2 ⟨x, hx, ?_⟩
  rw [if_pos hemail]

theorem replied_answered (h : replied P data inv a = .ok data')
    (hattendee : ∀ id, inv.master.recurrenceIdValue P = some id →
      ∀ c, exceptionFor P data id = some c → c.isAttendee P a.email = true) :
    Answered P data' a := by
  unfold replied at h
  cases hid : inv.master.recurrenceIdValue P with
  | none =>
    simp only [hid] at h
    have hstays : ∀ c c', data.master = some c →
        c.answeredByAttendee P a.email (Attendee.partstatValue a) = .ok c' →
          c'.recurrenceId = none := by
      intro c c' hc hc'
      rw [answeredByAttendee_ok hc']
      exact master_recurrenceId (m := c) hc
    obtain ⟨m, m', hm, hm', hmaster⟩ := master_onMaster hstays h
    unfold Component.answeredByAttendee at hm'
    split at hm'
    · rename_i hlisted
      cases hm'
      exact ⟨_, master_mem hmaster, answered_line hlisted⟩
    · cases hm'
  | some id =>
    simp only [hid] at h
    have hnames : ∀ c c', exceptionFor P data id = some c →
        (.ok (c.answered P a.email (Attendee.partstatValue a)) : Except EditError Component)
          = .ok c' → c'.names P id = true :=
      answered_names (recurrenceIdValue_normal hid)
    obtain ⟨c, c', htarget, hc', hover⟩ := override_onException hnames h
    cases hc'
    exact ⟨_, override_mem hover, answered_line (hattendee id hid c htarget)⟩

theorem importInto_answered (hparse : parseItipMessage raw = some inv)
    (hreply : inv.method = "REPLY") (h : importInto P data raw inv = .ok data')
    (ha : inv.master.attendees.head? = some a) : Answered P data' a := by
  have hmem : a ∈ inv.master.attendees := List.mem_of_mem_head? ha
  have hfirst : ∃ c l, (fixed raw).vevents = c :: l ∧ c.attendees = inv.master.attendees := by
    unfold parseItipMessage at hparse
    split at hparse
    · rename_i method c l _ hv
      cases hparse
      refine ⟨onClient c, l.map onClient, ?_, rfl⟩
      rw [fixed_vevents, hv, List.map_cons]
    · cases hparse
  obtain ⟨c, l, hv, hattendees⟩ := hfirst
  have hline : ∃ x ∈ c.attendees, P.lower x.email = P.lower a.email ∧
      Attendee.partstatValue x = Attendee.partstatValue a := by
    rw [hattendees]
    exact ⟨a, hmem, rfl, rfl⟩
  unfold importInto at h
  split at h
  · cases h
  · rw [if_neg (by rw [hreply]; decide)] at h
    split at h
    · unfold mergeException at h
      simp only [hv] at h
      cases h
      exact ⟨c, List.mem_append_right _ (List.mem_singleton.2 rfl), hline⟩
    · cases h
      exact ⟨c, by rw [hv]; exact List.mem_cons_self, hline⟩

end

/-! ### The steps -/

section

variable {I : Type u} [DecidableEq I] {P : Platform} {D : Directory} {M : Mail} {s t : State I}
  {i : I}

/-- The gate lets one delivery of the message on. -/
theorem passGate_inv (h : Inv P D M s) {d : IntakeDecision} (hphase : s.phase i = .decided d)
    (hguard : Guarded P M s (.gate i)) : Inv P D M (s.passGate P M i d) := by
  obtain ⟨hinsert, hcreate⟩ := hguard d hphase
  have hdecided : ∃ objects, d = decideOn P D objects M.msg M.inv := by
    have hok := h.phases i
    rw [hphase] at hok
    exact hok
  have hidle : (s.phase i).unrecorded = true → False := by
    rw [hphase]
    intro hu
    cases hu
  have hkey : (intakeRow P M.msg M.inv d).key = M.msg.key := rfl
  unfold State.passGate
  rcases @createIfAbsent_cases s.store.intake (intakeRow P M.msg M.inv d) with
    ⟨hnone, hrow, hreturned⟩ | ⟨r, hsome, hreturned⟩
  · rw [hkey] at hnone hrow
    have hnone : s.row M = none := hnone
    simp only [hreturned, true_or, if_true]
    have hstatus : (intakeRow P M.msg M.inv d).status ≠ .updated := by
      unfold intakeRow
      simp only
      split
      · exact fun hc => by cases hc
      · rename_i hd
        exact fun hc => hd (.inr hc)
    have hinserted := h.insertRow (t := { s with store := { s.store with intake :=
      (createIfAbsent s.store.intake (intakeRow P M.msg M.inv d)).1 } }) rfl rfl hnone hrow hstatus
      (hinsert hnone)
    have hnil : s.log = [] := h.log_nil hnone (hinsert hnone)
    refine hinserted.to ⟨hdecided, ?_, fun _ => ?_⟩ (fun himported => .inr fun j => ?_)
      fun hu => (hidle hu).elim
    · exact Option.isSome_iff_exists.2 ⟨_, hrow⟩
    · show s.log.any _ = false
      rw [hnil]
      rfl
    · have hopen : rowOpen (s.row M) = true := by
        rw [hnone]
        rfl
      exact (hcreate (decide_eq_true_iff.1 himported) hopen j).1
  · rw [hkey] at hsome
    have hsome : s.row M = some r := hsome
    simp only [hreturned, false_or, Bool.false_eq_true]
    by_cases hpending : r.status = .pending
    · rw [if_pos hpending]
      have hopen : rowOpen (s.row M) = true := by
        rw [hsome]
        exact decide_eq_true hpending
      refine h.to ⟨hdecided, by rw [hsome]; rfl, fun himported => ?_⟩
        (fun himported => .inr fun j => (hcreate (decide_eq_true_iff.1 himported) hopen j).1)
        fun hu => (hidle hu).elim
      -- a pending row records nothing, so nothing has been written
      have hnil : s.log = [] := by
        by_contra hlog
        rcases h.recorded hlog with ⟨j, hj⟩ | ⟨w, hw, r', hr', hstatus, -⟩
        · rw [(hcreate himported hopen j).2] at hj
          cases hj
        · rw [hsome, Option.some.injEq] at hr'
          subst hr'
          exact (h.entries w hw).1 (hstatus.symm.trans hpending)
      rw [hnil]
      rfl
    · rw [if_neg hpending]
      exact h.to trivial (fun hmay => by cases hmay) fun hu => (hidle hu).elim

omit [DecidableEq I] in
theorem row_update (f : IntakeRow → IntakeRow) (hf : ∀ r, (f r).key = r.key) {r : IntakeRow}
    (hr : s.row M = some r)
    (ht : t.store.intake = s.store.intake.update (fun r => decide (r.key = M.msg.key)) f hf) :
    t.row M = some (f r) := by
  unfold State.row at hr ⊢
  have hkey : r.key = M.msg.key := (KeyedTable.find?_eq_some_iff.1 hr).2
  rw [ht, KeyedTable.find?_update, hr, Option.map_some, if_pos (decide_eq_true hkey)]

theorem effectOf_replace {d : IntakeDecision} {inv : ParsedInvitation} {raw data : Calendar}
    {id : Uuid} (h : effectOf P d inv raw = .ok (some (.replace id data))) :
    d.status = .updated ∧ ∃ o a, d.existing = some o ∧ o.id = id ∧
      inv.master.attendees.head? = some a ∧ replied P o.data inv a = .ok data := by
  unfold effectOf at h
  split at h
  · rename_i o a hstatus hexisting ha
    split at h
    · cases hreplied : replied P o.data inv a with
      | error e =>
        rw [hreplied] at h
        cases h
      | ok body =>
        rw [hreplied] at h
        cases h
        exact ⟨hstatus, o, a, hexisting, rfl, ha, hreplied⟩
    · cases h
  · split at h
    · cases h
    · cases h
  · cases h

theorem effectOf_create {d : IntakeDecision} {inv : ParsedInvitation} {raw data : Calendar}
    {account collection : Uuid}
    (h : effectOf P d inv raw = .ok (some (.create account collection data))) :
    d.status = .imported := by
  unfold effectOf at h
  split at h
  · rename_i o a _ _ _
    split at h
    · cases hreplied : replied P o.data inv a with
      | error e | ok body =>
        rw [hreplied] at h
        cases h
    · cases h
  · rename_i hstatus
    exact hstatus
  · cases h

/-- The write of a delivery that passed the gate is logged once. -/
theorem writeEffect_inv (h : Inv P D M s) {d : IntakeDecision} (hphase : s.phase i = .gated d)
    (hguard : Guarded P M s (.write i)) : Inv P D M (s.writeEffect P M i d) := by
  have hok := h.phases i
  rw [hphase] at hok
  obtain ⟨⟨objects, hd⟩, hpresent, hnone⟩ := hok
  have hidle : (s.phase i).unrecorded = true → False := by
    rw [hphase]
    intro hu
    cases hu
  have hdone : Inv P D M (s.to i .done) :=
    h.to trivial (fun hmay => by cases hmay) fun hu => (hidle hu).elim
  unfold State.writeEffect
  split
  · exact hdone
  · rename_i hnothing
    split
    · rename_i o hstatus hexisting
      split
      · -- a decision to update is only made for a reply that names an attendee
        rename_i hreply
        rw [hd] at hstatus
        obtain ⟨a, ha⟩ := decideOn_updated hstatus
        rw [← hd] at hstatus
        unfold effectOf at hnothing
        simp only [hstatus, hexisting, ha, if_pos hreply] at hnothing
        cases hreplied : replied P o.data M.inv a with
        | error e | ok body =>
          rw [hreplied] at hnothing
          cases hnothing
      · exact hdone
    · exact hdone
  · rename_i id data heffect
    obtain ⟨hstatus, o, a, hexisting, -, ha, hreplied⟩ := effectOf_replace heffect
    refine h.append (p := .wrote ⟨d.status, id, data, false⟩) rfl rfl rfl
      ⟨List.mem_append_right _ (List.mem_singleton.2 rfl), hpresent⟩ rfl
      (fun hmay => by cases hmay) ⟨?_, fun _ _ b hb => ?_⟩ fun hc => by cases hc
    · show d.status ≠ .pending
      rw [hstatus]
      exact fun hc => by cases hc
    · rw [ha, Option.some.injEq] at hb
      subst hb
      exact replied_answered hreplied fun id hid => hguard d o id a hphase hexisting hid ha
  · rename_i account collection data heffect
    have himported := effectOf_create heffect
    refine h.append (p := .wrote ⟨d.status, s.store.nextId, data, true⟩) rfl rfl rfl
      ⟨List.mem_append_right _ (List.mem_singleton.2 rfl), hpresent⟩ rfl
      (fun hmay => by cases hmay) ⟨?_, fun _ hupdated => ?_⟩ fun _ => ⟨?_, hnone himported⟩
    · show d.status ≠ .pending
      rw [himported]
      exact fun hc => by cases hc
    · have hupdated : d.status = .updated := hupdated
      rw [himported] at hupdated
      cases hupdated
    · rw [hphase]
      exact decide_eq_true himported

theorem promoteRow_inv (h : Inv P D M s) {w : Written} (hphase : s.phase i = .wrote w) :
    Inv P D M (s.promoteRow M i w) := by
  have hok := h.phases i
  rw [hphase] at hok
  obtain ⟨hw, hpresent⟩ := hok
  obtain ⟨r, hr⟩ := Option.isSome_iff_exists.1 hpresent
  have hrow : (s.promoteRow M i w).row M
      = some { r with status := w.status, reason := none, objectId := some w.objectId } :=
    row_update (fun r => { r with status := w.status, reason := none, objectId := some w.objectId })
      (fun _ => rfl) hr rfl
  exact h.record rfl rfl hrow hw rfl rfl (.inl hpresent)

theorem importObject_inv (h : Inv P D M s) {existing : Option DavObject} {calendarId : Uuid}
    (hphase : s.phase i = .found existing) :
    Inv P D M (s.importObject P D M i existing calendarId) := by
  have hok := h.phases i
  rw [hphase] at hok
  have hdone : Inv P D M (s.to i .done) := by
    refine h.to trivial (fun hmay => by cases hmay) fun hu => ?_
    rw [hphase] at hu
    cases hu
  have hmay : (s.phase i).mayCreate = true := by
    rw [hphase]
    rfl
  unfold State.importObject
  cases existing with
  | some o =>
    simp only
    split
    · exact hdone
    · split
      · exact hdone
      · rename_i data hdata
        refine h.append (p := .imported _ _) rfl rfl rfl
          (List.mem_append_right _ (List.mem_singleton.2 rfl)) rfl (fun _ => hmay)
          ⟨?_, fun hreply _ a ha => importInto_answered M.parsed hreply hdata ha⟩
          fun hc => by cases hc
        show (if M.inv.method = "CANCEL" then IntakeStatus.cancelled else .updated) ≠ .pending
        split
        · exact fun hc => by cases hc
        · exact fun hc => by cases hc
  | none =>
    simp only
    split
    · exact hdone
    · split
      · exact hdone
      · refine h.append (p := .imported _ _) rfl rfl rfl
          (List.mem_append_right _ (List.mem_singleton.2 rfl)) rfl (fun _ => hmay)
          ⟨fun hc => (by cases hc), fun _ hupdated => (by cases hupdated)⟩
          fun _ => ⟨hmay, hok rfl⟩

theorem recordImport_inv (h : Inv P D M s) {w : Written} {target : Target} {present : Bool}
    (hphase : s.phase i = .checked w target present) :
    Inv P D M (s.recordImport P M i w target present) := by
  have hok := h.phases i
  rw [hphase] at hok
  obtain ⟨hw, hpresent⟩ := hok
  have himporting : (s.phase i).importing = true := by
    rw [hphase]
    rfl
  cases present with
  | true =>
    obtain ⟨r, hr⟩ := Option.isSome_iff_exists.1 hpresent
    have hrow : (s.recordImport P M i w target true).row M
        = some { r with
            status := w.status, reason := none, davAccountId := some target.davAccountId,
            collectionId := some target.collectionId, objectId := some w.objectId } :=
      row_update
        (fun r =>
          { r with
            status := w.status, reason := none, davAccountId := some target.davAccountId,
            collectionId := some target.collectionId, objectId := some w.objectId })
        (fun _ => rfl) hr rfl
    exact h.record rfl rfl hrow hw rfl rfl (.inl hpresent)
  | false =>
    have hnone : s.row M = none := Option.not_isSome_iff_eq_none.1 (by rw [hpresent]; simp)
    rcases @createIfAbsent_cases s.store.intake (importRow P M w target) with
      ⟨-, hrow, -⟩ | ⟨r, hsome, -⟩
    · exact h.record rfl rfl hrow hw rfl rfl (.inr himporting)
    · have hsome : s.row M = some r := hsome
      rw [hnone] at hsome
      cases hsome

omit [DecidableEq I] in
theorem start_inv {store : Store} (hrow : store.intake.find? M.msg.key = none) :
    Inv P D M (start store : State I) := by
  refine ⟨fun _ => trivial, fun j _ hj => (by cases hj), fun w hw => (by cases hw),
    fun hlog => absurd rfl hlog, fun r hr => ?_, Nat.zero_le 1⟩
  have hr : store.intake.find? M.msg.key = some r := hr
  rw [hrow] at hr
  cases hr

/-- A guarded step keeps it, whatever phase the intake is in. -/
theorem step_inv {l : Label I} (h : Inv P D M s) (hguard : Guarded P M s l)
    (hstep : step P D M s l = some t) : Inv P D M t := by
  unfold step at hstep
  cases l with
  | decide j =>
    simp only at hstep
    split at hstep
    · rename_i hphase
      split at hstep
      · cases hstep
        exact h.to ⟨_, rfl⟩ (fun hmay => by cases hmay) fun hu => by rw [hphase] at hu; cases hu
      · cases hstep
    · cases hstep
  | gate j =>
    simp only at hstep
    split at hstep
    · rename_i d hphase
      cases hstep
      exact passGate_inv h hphase hguard
    · cases hstep
  | write j =>
    simp only at hstep
    split at hstep
    · rename_i d hphase
      cases hstep
      exact writeEffect_inv h hphase hguard
    · cases hstep
  | promote j =>
    simp only at hstep
    split at hstep
    · rename_i w hphase
      cases hstep
      exact promoteRow_inv h hphase
    · cases hstep
  | find j =>
    simp only at hstep
    split at hstep
    · rename_i hphase
      split at hstep
      · cases hstep
      · cases hstep
        refine h.to (fun hmissing => ?_) (fun _ => .inr hguard.1)
          fun hu => by rw [hphase] at hu; cases hu
        refine Bool.eq_false_iff.2 fun hcreated => ?_
        have hfound := hguard.2 hcreated
        rw [hmissing] at hfound
        cases hfound
    · cases hstep
  | importWrite j calendarId =>
    simp only at hstep
    split at hstep
    · rename_i existing hphase
      cases hstep
      exact importObject_inv h hphase
    · cases hstep
  | check j =>
    simp only at hstep
    split at hstep
    · rename_i w target hphase
      cases hstep
      have hok := h.phases j
      rw [hphase] at hok
      exact h.to ⟨hok, rfl⟩ (fun _ => .inl (by rw [hphase]; rfl)) fun _ => rfl
    · cases hstep
  | record j =>
    simp only at hstep
    split at hstep
    · rename_i w target present hphase
      cases hstep
      exact recordImport_inv h hphase
    · cases hstep
  | crash j =>
    cases hstep
    have hquiet : (s.phase j).unrecorded = false := hguard
    exact h.to trivial (fun hmay => by cases hmay) fun hu => by rw [hquiet] at hu; cases hu
  | sync objectId uid data deleted | appear account collection data =>
    cases hstep
    exact h.of_row rfl rfl rfl

/-- **Intake applies each message once, where attempts do not overlap where it matters and
nothing dies between a write and its record.** At most one object is created, a
REPLY whose row reads `updated` has written its PARTSTAT, and once nothing is under way the row
of a message something was written for has the status and the object of what was written. -/
theorem applied_once_while_guarded {store : Store}
    (h : (system P D M store).Reachable (Guarded P M) s) : AppliedOnce P M s := by
  refine Inv.appliedOnce (D := D) (h.invariant ?_ ?_)
  · rintro s ⟨rfl, hrow⟩
    exact start_inv hrow
  · intro s l t hs hguard hstep
    exact step_inv hs hguard hstep

end

/-! ### An invitation delivered twice -/

def guestOffice : Directory :=
  { identities := [⟨1, 1, "guest@office.example"⟩]
    collections := [⟨1, 1, true, false, false⟩]
    prefs := [⟨1, some 1, true⟩]
    davAccounts := [⟨1, true⟩] }

def invitation : Mail where
  msg := ⟨1, "invitation", some "boss@office.example"⟩
  raw :=
    { method := some "REQUEST"
      vevents := [{ OccurrenceEdits.standup with attendees := [guest] }] }
  inv := ⟨"REQUEST", { OccurrenceEdits.standup with attendees := [guest] }⟩
  parsed := rfl

def emptyStore : Store where
  objects := KeyedTable.empty
  intake := KeyedTable.empty
  nextId := 1
  fresh := by
    intro o ho
    cases ho

def delivered : List (Label ℕ) := [.decide 0, .gate 0, .write 0, .promote 0]

theorem delivered_applied_once :
    ∃ s, (system utcPlatform guestOffice invitation emptyStore).exec (start emptyStore) delivered
        = some s ∧
      (s.row invitation).map IntakeRow.status = some .imported ∧
        AppliedOnce utcPlatform invitation s := by
  have h0 : (system utcPlatform guestOffice invitation emptyStore).Reachable
      (Guarded utcPlatform invitation) (start emptyStore : State ℕ) := .init ⟨rfl, rfl⟩
  have h1 := h0.step (l := Label.decide 0) trivial rfl
  have h2 := h1.step (l := Label.gate 0)
    (fun d _ => ⟨fun _ => to_forall (q := fun p => p.importing = false) (fun _ => rfl) rfl,
      fun _ _ j => ⟨to_forall (q := fun p => p.mayCreate = false) (fun _ => rfl) rfl j,
        to_forall (q := fun p => p.unrecorded = false) (fun _ => rfl) rfl j⟩⟩) rfl
  have h3 := h2.step (l := Label.write 0) (fun d o id a hphase hexisting hid => by cases hid) rfl
  have h4 := h3.step (l := Label.promote 0) trivial rfl
  exact ⟨_, rfl, rfl, applied_once_while_guarded h4⟩

/-- The first delivery dies after it has created the object; the second finds the row
pending and no object with the UID. -/
def deliveredTwice : List (Label ℕ) :=
  [.decide 0, .gate 0, .write 0, .crash 0, .decide 1, .gate 1, .write 1, .promote 1]

/-- Delivered twice, the invitation is two objects. -/
theorem delivered_twice_creates_two :
    ∃ s, (system utcPlatform guestOffice invitation emptyStore).exec (start emptyStore)
          deliveredTwice = some s ∧
      (system utcPlatform guestOffice invitation emptyStore).Reachable TransitionSystem.anyStep s ∧
      s.store.objects.rows.map DavObject.data = [fixed invitation.raw, fixed invitation.raw] ∧
      ¬ AppliedOnce utcPlatform invitation s := by
  refine ⟨_, rfl, TransitionSystem.reachable_of_exec_any deliveredTwice ⟨rfl, rfl⟩ rfl, rfl,
    fun h => ?_⟩
  have honce := h.once
  exact absurd honce (by decide)

end MailVerdict.Analysis.IntakeOnce
