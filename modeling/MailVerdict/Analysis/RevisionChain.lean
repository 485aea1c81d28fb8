import Mathlib.Data.List.Nodup
import Mathlib.Order.Nat
import MailVerdict.Model.PipelineRevisions

/-!
# Revisions form a chain

While a call holds the lock no other call reads or inserts, so what it read is still the newest
revision when its own is committed. Every step keeps the invariant `Inv`: the rows, last inserted
first, are `Chained`, and each call is where its phase says (`Sound`). A step changes the phase of
one call; what it has to give for the others is `Inv.advance`, and for a commit `Inv.commit`.

The results are `appended_or_raised` for the calls that have ended and `base_is_predecessor` for
the rows; together they are `revisions_chained`.
-/

namespace MailVerdict.Analysis.RevisionChain

open MailVerdict.Computation
open Model.PipelineRevisions

variable {Document : Type} {s s' : State Document} {rows : List (PipelineRevision Document)}

def predecessor (rows : List (PipelineRevision Document)) (n : ℕ) : ℕ :=
  current (rows.filter fun row => decide (row.revision < n))

def Refused (c : Call Document) (e : StaleRevisionError) : Prop :=
  c.expectedBaseRevision = some e.expected ∧ (e.actual : ℤ) ≠ e.expected

/-- The newest revision is the base the call expected, if it expected one. -/
def Based (rows : List (PipelineRevision Document)) (base : Option ℤ) : Prop :=
  ∀ r, base = some r → (current rows : ℤ) = r

/-- The rows, last inserted first: each newer than those before it, and put on its base. -/
inductive Chained : List (PipelineRevision Document) → Prop
  | nil : Chained []
  | cons {row : PipelineRevision Document} {rows : List (PipelineRevision Document)}
      (hnew : ∀ x ∈ rows, x.revision < row.revision) (hbase : Based rows row.base)
      (h : Chained rows) : Chained (row :: rows)

/-! ## What the newest revision is -/

theorem le_current {row : PipelineRevision Document} (h : row ∈ rows) :
    row.revision ≤ current rows := by
  induction rows with
  | nil => cases h
  | cons x rows ih =>
    rw [current, List.foldr_cons]
    obtain rfl | h := List.mem_cons.1 h
    · exact Nat.le_max_left _ _
    · exact (ih h).trans (Nat.le_max_right _ _)

theorem predecessor_cons {row : PipelineRevision Document} {n : ℕ} (h : n ≤ row.revision) :
    predecessor (row :: rows) n = predecessor rows n := by
  rw [predecessor, List.filter_cons, if_neg (by simpa using h)]
  rfl

/-- **In a chain each row has its base as its predecessor.** -/
theorem Chained.predecessor_eq (h : Chained rows) {row : PipelineRevision Document}
    (hrow : row ∈ rows) {r : ℤ} (hbase : row.base = some r) :
    (predecessor rows row.revision : ℤ) = r := by
  induction h with
  | nil => cases hrow
  | cons hnew hbased _ ih =>
    obtain rfl | hrow := List.mem_cons.1 hrow
    · rw [predecessor_cons le_rfl, predecessor, List.filter_eq_self.2 fun x hx => by
        simpa using hnew x hx]
      exact hbased r hbase
    · rw [predecessor_cons (hnew _ hrow).le]
      exact ih hrow

theorem Chained.revisions_nodup (h : Chained rows) :
    (rows.map PipelineRevision.revision).Nodup := by
  induction h with
  | nil => exact List.nodup_nil
  | @cons row rows hnew _ _ ih =>
    rw [List.map_cons, List.nodup_cons]
    refine ⟨fun hmem => ?_, ih⟩
    obtain ⟨x, hx, heq⟩ := List.mem_map.1 hmem
    exact (hnew x hx).ne heq

/-- **No two rows of a chain have one base.** -/
theorem Chained.eq_of_base (h : Chained rows) (hpos : ∀ row ∈ rows, 0 < row.revision)
    {a b : PipelineRevision Document} (ha : a ∈ rows) (hb : b ∈ rows) {r : ℤ}
    (hbaseA : a.base = some r) (hbaseB : b.base = some r) : a = b := by
  -- of two rows the older is at most the newer's base, and newer than its own
  have hapart : ∀ {x y : PipelineRevision Document}, x ∈ rows → y ∈ rows → x.base = some r →
      y.base = some r → x.revision < y.revision → False := fun {x y} hx hy hbx hby hlt => by
    have hle : x.revision ≤ predecessor rows y.revision :=
      le_current (List.mem_filter.2 ⟨hx, decide_eq_true hlt⟩)
    have hpx := h.predecessor_eq hx hbx
    have hpy := h.predecessor_eq hy hby
    have hbelow : predecessor rows x.revision < x.revision := by
      have hmax : ∀ (l : List (PipelineRevision Document)), (∀ z ∈ l, z.revision < x.revision) →
          current l < x.revision := by
        intro l hl
        induction l with
        | nil => exact hpos x hx
        | cons z l ih =>
          rw [current, List.foldr_cons]
          apply Nat.max_lt.2
          constructor
          · exact hl z List.mem_cons_self
          · exact ih fun w hw => hl w (List.mem_cons_of_mem z hw)
      apply hmax
      intro z hz
      exact of_decide_eq_true (List.mem_filter.1 hz).2
    omega
  rcases Nat.lt_trichotomy a.revision b.revision with hlt | heq | hgt
  · exact (hapart ha hb hbaseA hbaseB hlt).elim
  · exact List.inj_on_of_nodup_map h.revisions_nodup ha hb heq
  · exact (hapart hb ha hbaseB hbaseA hgt).elim

/-! ## The invariant -/

def Sound (rows : List (PipelineRevision Document)) (next : ℕ) (lock : Option CallId)
    (id : CallId) (c : Call Document) : Prop :=
  match c.phase with
  | .locking | .aborted => True
  | .checking => lock = some id
  | .inserting => lock = some id ∧ Based rows c.expectedBaseRevision
  | .committing n => lock = some id ∧ Based rows c.expectedBaseRevision ∧ 0 < n ∧ n < next ∧
      ∀ row ∈ rows, row.revision < n
  | .raising e => lock = some id ∧ Refused c e
  | .returned n => ∃ row ∈ rows, row.writer = id ∧ row.revision = n
  | .raised e => Refused c e

structure Inv (s : State Document) : Prop where
  chained : Chained s.rows
  pos : 0 < s.nextRevision
  drawn : ∀ row ∈ s.rows, 0 < row.revision ∧ row.revision < s.nextRevision
  written : ∀ row ∈ s.rows, ∃ c, s.calls row.writer = some c ∧
    c.phase = .returned row.revision ∧ c.expectedBaseRevision = row.base ∧
      c.document = row.document ∧ c.note = row.note
  sound : ∀ id c, s.calls id = some c → Sound s.rows s.nextRevision s.lock id c

theorem inv_start : Inv (start : State Document) :=
  ⟨.nil, Nat.one_pos, nofun, nofun, nofun⟩

theorem Sound.mono {next next' : ℕ} {lock lock' : Option CallId} {id : CallId}
    {c : Call Document} (h : Sound rows next lock id c) (hnext : next ≤ next')
    (hlock : lock = some id → lock' = some id) : Sound rows next' lock' id c := by
  unfold Sound at h ⊢
  cases hphase : c.phase with
  | locking => trivial
  | aborted => trivial
  | checking =>
    simp only [hphase] at h
    exact hlock h
  | inserting | raising e =>
    simp only [hphase] at h
    exact ⟨hlock h.1, h.2⟩
  | committing n =>
    simp only [hphase] at h
    obtain ⟨hheld, hbased, hpos, hlt, hnew⟩ := h
    exact ⟨hlock hheld, hbased, hpos, hlt.trans_le hnext, hnew⟩
  | returned n | raised e => simpa only [hphase] using h

theorem Inv.advance (hs : Inv s) {id : CallId} {c : Call Document} {p : Phase}
    (hcall : ∀ c', s.calls id = some c' → c'.phase.ended = false)
    (hcalls : s'.calls = (s.setPhase id c p).calls) (hrows : s'.rows = s.rows)
    (hnext : s.nextRevision ≤ s'.nextRevision)
    (hlock : ∀ i, i ≠ id → s.lock = some i → s'.lock = some i)
    (hsound : Sound s.rows s'.nextRevision s'.lock id { c with phase := p }) : Inv s' where
  chained := hrows ▸ hs.chained
  pos := hs.pos.trans_le hnext
  drawn row hrow := by
    rw [hrows] at hrow
    exact ⟨(hs.drawn row hrow).1, (hs.drawn row hrow).2.trans_le hnext⟩
  written row hrow := by
    rw [hrows] at hrow
    obtain ⟨cw, hcw, hreturned, hbase⟩ := hs.written row hrow
    have hne : row.writer ≠ id := by
      rintro rfl
      have hopen := hcall cw hcw
      rw [hreturned] at hopen
      cases hopen
    refine ⟨cw, ?_, hreturned, hbase⟩
    rw [hcalls, State.setPhase_of_ne s c p hne]
    exact hcw
  sound i ci hci := by
    rw [hcalls] at hci
    rw [hrows]
    by_cases hi : i = id
    · subst hi
      rw [State.setPhase_self] at hci
      cases hci
      exact hsound
    · rw [State.setPhase_of_ne s c _ hi] at hci
      exact (hs.sound i ci hci).mono hnext (hlock i hi)

/-- A commit lengthens the chain by its own revision. -/
theorem Inv.commit (hs : Inv s) {id : CallId} {c : Call Document} {n : ℕ}
    (hcall : s.calls id = some c) (hphase : c.phase = .committing n)
    (hcalls : s'.calls = (s.setPhase id c (.returned n)).calls)
    (hrows : s'.rows = ⟨n, c.document, c.note, id, c.expectedBaseRevision⟩ :: s.rows)
    (hnext : s'.nextRevision = s.nextRevision) : Inv s' := by
  have hown := hs.sound id c hcall
  unfold Sound at hown
  rw [hphase] at hown
  obtain ⟨hheld, hbased, hpos, hlt, hnew⟩ := hown
  constructor
  · rw [hrows]
    exact .cons hnew hbased hs.chained
  · exact hnext ▸ hs.pos
  · rw [hrows, hnext]
    intro row hrow
    obtain rfl | hrow := List.mem_cons.1 hrow
    · exact ⟨hpos, hlt⟩
    · exact hs.drawn row hrow
  · rw [hrows, hcalls]
    intro row hrow
    obtain rfl | hrow := List.mem_cons.1 hrow
    · exact ⟨{ c with phase := .returned n }, State.setPhase_self s id c _, rfl, rfl, rfl, rfl⟩
    · obtain ⟨cw, hcw, hreturned, hbase⟩ := hs.written row hrow
      have hne : row.writer ≠ id := by
        intro heq
        rw [heq, hcall] at hcw
        cases hcw
        rw [hphase] at hreturned
        cases hreturned
      exact ⟨cw, (State.setPhase_of_ne s c _ hne).trans hcw, hreturned, hbase⟩
  · rw [hrows, hcalls, hnext]
    intro i ci hci
    by_cases hi : i = id
    · subst hi
      rw [State.setPhase_self] at hci
      cases hci
      exact ⟨_, List.mem_cons_self, rfl, rfl⟩
    · rw [State.setPhase_of_ne s c _ hi] at hci
      -- another call holds nothing, so its phase says nothing of the newest revision
      have hfree : s.lock ≠ some i := by
        rw [hheld]
        exact fun h => hi (Option.some.inj h).symm
      have hother := hs.sound i ci hci
      unfold Sound at hother ⊢
      cases hp : ci.phase with
      | locking => trivial
      | aborted => trivial
      | checking =>
        simp only [hp] at hother
        exact (hfree hother).elim
      | inserting | committing m | raising e =>
        simp only [hp] at hother
        exact (hfree hother.1).elim
      | raised e => simpa only [hp] using hother
      | returned m =>
        simp only [hp] at hother
        obtain ⟨row, hrow, hwriter, hrevision⟩ := hother
        exact ⟨row, List.mem_cons_of_mem _ hrow, hwriter, hrevision⟩

theorem release_lock_of_ne {id i : CallId} (hne : i ≠ id) (h : s.lock = some i) :
    (s.release id).lock = some i := by
  rw [State.release]
  rw [if_neg, h]
  rw [h]
  exact fun heq => hne (Option.some.inj heq)

inductive Steps (s : State Document) : Label Document → State Document → Prop
  | call {id : CallId} {document : Document} {note : Option String} {expected : Option ℤ}
      (hnew : s.calls id = none) : Steps s (.call id document note expected)
        (s.setPhase id ⟨document, note, expected, .locking⟩ .locking)
  | lock {id : CallId} {c : Call Document} (hc : s.calls id = some c) (hphase : c.phase = .locking)
      (hfree : s.lock = none) : Steps s (.lock id)
        { s.setPhase id c (if c.expectedBaseRevision.isSome then .checking else .inserting) with
          lock := some id }
  | stale {id : CallId} {c : Call Document} {expected : ℤ} (hc : s.calls id = some c)
      (hphase : c.phase = .checking) (hexpected : c.expectedBaseRevision = some expected)
      (hstale : (current s.rows : ℤ) ≠ expected) : Steps s (.check id)
        (s.setPhase id c (.raising ⟨expected, current s.rows⟩))
  | check {id : CallId} {c : Call Document} {expected : ℤ} (hc : s.calls id = some c)
      (hphase : c.phase = .checking) (hexpected : c.expectedBaseRevision = some expected)
      (hcurrent : (current s.rows : ℤ) = expected) : Steps s (.check id)
        (s.setPhase id c .inserting)
  | insert {id : CallId} {c : Call Document} (hc : s.calls id = some c)
      (hphase : c.phase = .inserting) : Steps s (.insert id)
        { s.setPhase id c (.committing s.nextRevision) with nextRevision := s.nextRevision + 1 }
  | commit {id : CallId} {c : Call Document} {n : ℕ} (hc : s.calls id = some c)
      (hphase : c.phase = .committing n) : Steps s (.commit id)
        { (s.setPhase id c (.returned n)).release id with
          rows := ⟨n, c.document, c.note, id, c.expectedBaseRevision⟩ :: s.rows }
  | rollback {id : CallId} {c : Call Document} {e : StaleRevisionError} (hc : s.calls id = some c)
      (hphase : c.phase = .raising e) : Steps s (.rollback id)
        ((s.setPhase id c (.raised e)).release id)
  | abort {id : CallId} {c : Call Document} (hc : s.calls id = some c)
      (hopen : c.phase.ended = false) : Steps s (.abort id)
        ((s.setPhase id c .aborted).release id)

theorem steps_of_step {l : Label Document} (h : step s l = some s') : Steps s l s' := by
  cases l with
  | call id document note expected =>
    obtain ⟨hnone, hs'⟩ := Option.ite_none_right_eq_some.1 h
    cases hs'
    exact .call (Option.isNone_iff_eq_none.1 hnone)
  | lock id =>
    obtain ⟨c, hc, h⟩ := Option.bind_eq_some_iff.1 h
    obtain ⟨⟨hphase, hfree⟩, hs'⟩ := Option.ite_none_right_eq_some.1 h
    cases hs'
    exact .lock hc hphase hfree
  | check id =>
    obtain ⟨c, hc, h⟩ := Option.bind_eq_some_iff.1 h
    unfold State.check at h
    split at h
    · next expected hphase hexpected =>
      split at h
      · next hstale =>
        cases h
        exact .stale hc hphase hexpected hstale
      · next hmatch =>
        cases h
        exact .check hc hphase hexpected (not_not.1 hmatch)
    · cases h
  | insert id =>
    obtain ⟨c, hc, h⟩ := Option.bind_eq_some_iff.1 h
    obtain ⟨hphase, hs'⟩ := Option.ite_none_right_eq_some.1 h
    cases hs'
    exact .insert hc hphase
  | commit id =>
    obtain ⟨c, hc, h⟩ := Option.bind_eq_some_iff.1 h
    unfold State.commit at h
    split at h
    · next n hphase =>
      cases h
      exact .commit hc hphase
    · cases h
  | rollback id =>
    obtain ⟨c, hc, h⟩ := Option.bind_eq_some_iff.1 h
    unfold State.rollback at h
    split at h
    · next e hphase =>
      cases h
      exact .rollback hc hphase
    · cases h
  | abort id =>
    obtain ⟨c, hc, h⟩ := Option.bind_eq_some_iff.1 h
    obtain ⟨hopen, hs'⟩ := Option.ite_none_right_eq_some.1 h
    cases hs'
    exact .abort hc hopen

/-- Every step of a call keeps the chain. -/
theorem step_inv {l : Label Document} (h : step s l = some s') (hs : Inv s) : Inv s' := by
  have hopen : ∀ {id : CallId} {c : Call Document}, s.calls id = some c → c.phase.ended = false →
      ∀ c', s.calls id = some c' → c'.phase.ended = false := fun hc hended c' hc' => by
    rw [hc] at hc'
    cases hc'
    exact hended
  -- what the phase of the call that steps says
  have hown : ∀ {id : CallId} {c : Call Document} {p : Phase}, s.calls id = some c → c.phase = p →
      Sound s.rows s.nextRevision s.lock id { c with phase := p } := fun {id c p} hc hphase => by
    subst hphase
    exact hs.sound id c hc
  cases steps_of_step h with
  | call hnew =>
    refine hs.advance (fun c' hc' => ?_) rfl rfl le_rfl (fun _ _ hlock => hlock) trivial
    rw [hnew] at hc'
    cases hc'
  | @lock id c hc hphase hfree =>
    refine hs.advance (hopen hc (by rw [hphase]; rfl)) rfl rfl le_rfl (fun i _ hlock => ?_) ?_
    · rw [hfree] at hlock
      cases hlock
    · cases hexpected : c.expectedBaseRevision with
      | none =>
        refine ⟨rfl, fun r hr => ?_⟩
        cases hr
      | some r => exact rfl
  | stale hc hphase hexpected hstale =>
    have hheld : s.lock = some _ := hown hc hphase
    refine hs.advance (hopen hc (by rw [hphase]; rfl)) rfl rfl le_rfl (fun _ _ hlock => hlock) ?_
    exact ⟨hheld, hexpected, hstale⟩
  | check hc hphase hexpected hcurrent =>
    have hheld : s.lock = some _ := hown hc hphase
    refine hs.advance (hopen hc (by rw [hphase]; rfl)) rfl rfl le_rfl (fun _ _ hlock => hlock)
      ⟨hheld, fun r hr => ?_⟩
    rw [hexpected] at hr
    cases hr
    exact hcurrent
  | insert hc hphase =>
    obtain ⟨hheld, hbased⟩ := hown hc hphase
    refine hs.advance (hopen hc (by rw [hphase]; rfl)) rfl rfl (Nat.le_succ _)
      (fun _ _ hlock => hlock) ?_
    exact ⟨hheld, hbased, hs.pos, Nat.lt_succ_self _, fun row hrow => (hs.drawn row hrow).2⟩
  | commit hc hphase => exact hs.commit hc hphase rfl rfl rfl
  | rollback hc hphase =>
    obtain ⟨-, hrefused⟩ := hown hc hphase
    exact hs.advance (hopen hc (by rw [hphase]; rfl)) rfl rfl le_rfl
      (fun i hi hlock => release_lock_of_ne hi hlock) hrefused
  | abort hc hended =>
    exact hs.advance (hopen hc hended) rfl rfl le_rfl
      (fun i hi hlock => release_lock_of_ne hi hlock) trivial

theorem aborted_of_step {l : Label Document} (h : step s l = some s') {id : CallId}
    (hl : l ≠ .abort id) (hs : ∀ c, s.calls id = some c → c.phase ≠ .aborted) :
    ∀ c, s'.calls id = some c → c.phase ≠ .aborted := by
  have hset : ∀ {i : CallId} {c : Call Document} {p : Phase},
      s'.calls = (s.setPhase i c p).calls → (i = id → p ≠ .aborted) →
      ∀ c, s'.calls id = some c → c.phase ≠ .aborted := fun {i c p} hcalls hp c' hc' => by
    rw [hcalls] at hc'
    by_cases hi : id = i
    · subst hi
      rw [State.setPhase_self] at hc'
      cases hc'
      exact hp rfl
    · rw [State.setPhase_of_ne s c p hi] at hc'
      exact hs c' hc'
  cases steps_of_step h with
  | lock =>
    refine hset rfl fun _ => ?_
    split
    · exact nofun
    · exact nofun
  | abort => exact hset rfl fun hi => absurd (congrArg Label.abort hi) hl
  | call | stale | check | insert | commit | rollback => exact hset rfl fun _ => nofun

/-! ## The chain -/

theorem base_is_predecessor (hs : Inv s) {row : PipelineRevision Document} (hrow : row ∈ s.rows) :
    ∃ c, s.calls row.writer = some c ∧ c.phase = .returned row.revision ∧
      c.document = row.document ∧ c.note = row.note ∧
      ∀ r, c.expectedBaseRevision = some r →
        (predecessor s.rows row.revision : ℤ) = r ∧
        ∀ row' ∈ s.rows, ∀ c', s.calls row'.writer = some c' →
          c'.expectedBaseRevision = some r → row' = row := by
  obtain ⟨c, hc, hreturned, hbase, hdocument, hnote⟩ := hs.written row hrow
  refine ⟨c, hc, hreturned, hdocument, hnote, fun r hr => ?_⟩
  rw [hbase] at hr
  refine ⟨hs.chained.predecessor_eq hrow hr, fun row' hrow' c' hc' hr' => ?_⟩
  obtain ⟨cw, hcw, -, hbase', -⟩ := hs.written row' hrow'
  rw [hc'] at hcw
  cases hcw
  rw [hbase'] at hr'
  exact hs.chained.eq_of_base (fun x hx => (hs.drawn x hx).1) hrow' hrow hr' hr

theorem appended_or_raised (hs : Inv s) {id : CallId} {c : Call Document}
    (hc : s.calls id = some c) (hended : c.phase.ended = true) :
    (∃ row ∈ s.rows, c.phase = .returned row.revision ∧ row.writer = id ∧
      ∀ row' ∈ s.rows, row'.writer = id → row' = row) ∨
    ((c.phase = .aborted ∨ ∃ e, c.phase = .raised e ∧ Refused c e) ∧
      ∀ row ∈ s.rows, row.writer ≠ id) := by
  have hown := hs.sound id c hc
  unfold Sound at hown
  have hnone : (∀ n, c.phase ≠ .returned n) → ∀ row ∈ s.rows, row.writer ≠ id :=
    fun hphase row hrow hwriter => by
      obtain ⟨cw, hcw, hreturned, -⟩ := hs.written row hrow
      rw [hwriter, hc] at hcw
      cases hcw
      exact hphase _ hreturned
  cases hphase : c.phase with
  | returned n =>
    simp only [hphase] at hown
    obtain ⟨row, hrow, hwriter, rfl⟩ := hown
    refine Or.inl ⟨row, hrow, rfl, hwriter, fun row' hrow' hwriter' => ?_⟩
    obtain ⟨cw, hcw, hreturned, -⟩ := hs.written row' hrow'
    rw [hwriter', hc] at hcw
    cases hcw
    rw [hphase] at hreturned
    exact List.inj_on_of_nodup_map hs.chained.revisions_nodup hrow' hrow
      (Phase.returned.inj hreturned).symm
  | raised e =>
    simp only [hphase] at hown
    refine Or.inr ⟨Or.inr ⟨e, rfl, hown⟩, hnone fun n h => ?_⟩
    rw [hphase] at h
    cases h
  | aborted =>
    refine Or.inr ⟨Or.inl rfl, hnone fun n h => ?_⟩
    rw [hphase] at h
    cases h
  | locking | checking | inserting | committing n | raising e =>
    rw [hphase] at hended
    cases hended

/-- **Pipeline revisions form a chain**: a row whose call expected a base has it as its
predecessor and no other row was put on it; a call that has ended without a row raised for a base
that was not the newest revision, or was cut off. -/
theorem revisions_chained (ls : List (Label Document)) (hexec : system.exec start ls = some s) :
    (∀ row ∈ s.rows, ∃ c, s.calls row.writer = some c ∧ c.phase = .returned row.revision ∧
      c.document = row.document ∧ c.note = row.note ∧
      ∀ r, c.expectedBaseRevision = some r →
        (predecessor s.rows row.revision : ℤ) = r ∧
        ∀ row' ∈ s.rows, ∀ c', s.calls row'.writer = some c' →
          c'.expectedBaseRevision = some r → row' = row) ∧
    ∀ id c, s.calls id = some c → c.phase.ended = true →
      (∃ row ∈ s.rows, c.phase = .returned row.revision ∧ row.writer = id ∧
        ∀ row' ∈ s.rows, row'.writer = id → row' = row) ∨
      ((Label.abort id ∈ ls ∨ ∃ e, c.phase = .raised e ∧ Refused c e) ∧
        ∀ row ∈ s.rows, row.writer ≠ id) := by
  have hs : Inv s := TransitionSystem.exec_preserves ls
    (fun l _ s t hs hst => step_inv hst hs) inv_start hexec
  refine ⟨fun row hrow => base_is_predecessor hs hrow, fun id c hc hended => ?_⟩
  obtain hrow | ⟨haborted | hraised, hnone⟩ := appended_or_raised hs hc hended
  · exact Or.inl hrow
  · refine Or.inr ⟨Or.inl ?_, hnone⟩
    by_contra habsent
    have hnever : ∀ c, s.calls id = some c → c.phase ≠ .aborted :=
      TransitionSystem.exec_preserves (T := system) ls
        (I := fun s => ∀ c, s.calls id = some c → c.phase ≠ .aborted)
        (fun l hl s t hs hst => aborted_of_step hst (fun heq => habsent (heq ▸ hl)) hs)
        (fun _ hnone => absurd hnone (Option.some_ne_none _).symm) hexec
    exact hnever c hc haborted
  · exact Or.inr ⟨Or.inr hraised, hnone⟩

def twoEditors : List (Label String) :=
  [.call 1 "first" none none, .lock 1, .insert 1, .commit 1,
    .call 2 "left" none (some 1), .call 3 "right" none (some 1),
    .lock 3, .check 3, .insert 3, .commit 3, .lock 2, .check 2, .rollback 2]

theorem second_editor_refused :
    ((system.exec start twoEditors).any fun s =>
      decide ((s.rows.map fun row => (row.revision, row.document)) = [(2, "right"), (1, "first")]) &&
        decide ((s.calls 2).map Call.phase = some (.raised ⟨1, 2⟩))) = true ∧
    ∃ s, system.exec start twoEditors = some s ∧ ∀ row ∈ s.rows, ∃ c,
      s.calls row.writer = some c ∧ ∀ r, c.expectedBaseRevision = some r →
        (predecessor s.rows row.revision : ℤ) = r := by
  have hruns : ((system.exec start twoEditors).any fun s =>
      decide ((s.rows.map fun row => (row.revision, row.document)) = [(2, "right"), (1, "first")]) &&
        decide ((s.calls 2).map Call.phase = some (.raised ⟨1, 2⟩))) = true := by
    decide +kernel
  obtain ⟨s, hexec, -⟩ := (Option.any_eq_true _ _).1 hruns
  refine ⟨hruns, s, hexec, fun row hrow => ?_⟩
  obtain ⟨c, hc, -, -, -, hbase⟩ := (revisions_chained twoEditors hexec).1 row hrow
  exact ⟨c, hc, fun r hr => (hbase r hr).1⟩

end MailVerdict.Analysis.RevisionChain
