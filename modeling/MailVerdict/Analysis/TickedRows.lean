import MailVerdict.Analysis.BulkSelection

/-!
# Ticked rows and the requests built from them

Every gesture ticks rows of the list on screen: what is ticked by hand are listed rows
outside the predicate, what is unticked listed rows inside it (`TicksOk`). So the client's
test of a row and the server's test of its message agree, row by row (`Inv.agrees`).
-/

namespace MailVerdict.Analysis.TickedRows

open MailVerdict.Computation Model.MailActions Model.Selection
open Analysis.BulkSelection

variable {id : Uuid} {p : SelectionPredicate}

/-! ## The properties -/

def acted (M : Mailbox) (action : Action) (through : Option Time) (s : SelectionState) :
    List Uuid := (buildBulkRequests s).flatMap (M.resolveBulk action through)

def ticked (M : Mailbox) (s : Screen) : List SelectableRow :=
  (M.listRows s.scope s.unreadOnly).filter (isRowSelected s.effective)

/-- A row is shown ticked exactly if the requests take its message. -/
def Agrees (M : Mailbox) (s : Screen) : Prop :=
  ∀ action through, ∀ row ∈ M.listRows s.scope s.unreadOnly,
    (isRowSelected s.effective row = true ↔ row.id ∈ acted M action through s.effective)

/-- No row mirrored by a moment comes into the glacier after it. -/
def Still (M : Mailbox) (folderId : Uuid) (now : Time) : Prop :=
  ∀ g ∈ M.glacier.rows, g.folderId = folderId → g.createdAt ≤ now →
    ∀ v ∈ g.visibleAt, v ≤ now

/-- The condition on steps: everything in a glacier is selected when it is still. -/
def Settled (M : Mailbox) (s : Screen) : Label → Prop
  | .selectAll _ now =>
    match s.scope.place with
    | .unified _ => True
    | .folder _ folderId => Still M folderId now
  | _ => True

instance (M : Mailbox) (s : Screen) (l : Label) : Decidable (Settled M s l) := by
  cases l <;> unfold Settled
  case selectAll =>
      cases s.scope.place with
      | folder a f => unfold Still; infer_instance
      | unified name => infer_instance
  all_goals infer_instance

/-! ## The invariant -/

/-- What is ticked by hand is listed and outside the predicate, what is unticked inside. -/
structure TicksOk (rows : List SelectableRow) (predicate : Option SelectionPredicate)
    (included excluded : Ticks) : Prop where
  included : ∀ e ∈ included.rows, ∃ r ∈ rows, (r.id, r.accountId) = e ∧ covers predicate r = false
  excluded : ∀ e ∈ excluded.rows, ∃ r ∈ rows, (r.id, r.accountId) = e ∧ covers predicate r = true

structure PredicateOk (M : Mailbox) (place : ListPlace) (p : SelectionPredicate) : Prop where
  place : place = .folder p.accountId p.folderId
  count : p.count = M.mintSelection p.accountId p.folderId p.filter p.snapshotAt
  still : Still M p.folderId p.snapshotAt

structure Inv (M : Mailbox) (s : Screen) : Prop where
  loaded : ∀ r ∈ s.loaded, r ∈ M.listRows s.scope s.unreadOnly
  scope : s.selection.scope = some s.scope ∨ s.selection = emptySelection
  ticks : TicksOk (M.listRows s.scope s.unreadOnly) s.selection.predicate s.selection.included
    s.selection.excluded
  base : ∀ b ∈ s.selection.anchorBase,
    TicksOk (M.listRows s.scope s.unreadOnly) s.selection.predicate b.1 b.2
  anchor : ∀ a ∈ s.selection.anchorId,
    a ∈ s.loaded.map SelectableRow.id ∧ s.selection.anchorBase.isSome = true
  predicate : ∀ p ∈ s.selection.predicate, PredicateOk M s.scope.place p

theorem Inv.effective {M : Mailbox} {s : Screen} (h : Inv M s) : s.effective = s.selection := by
  unfold Screen.effective selectionForScope
  obtain hsame | hempty := h.scope
  · rw [hsame]
    exact if_pos rfl
  · rw [hempty]
    rfl

section Gestures

variable {rows : List SelectableRow} {s : SelectionState}

theorem TicksOk.empty {predicate : Option SelectionPredicate} :
    TicksOk rows predicate KeyedTable.empty KeyedTable.empty where
  included _ he := by cases he
  excluded _ he := by cases he

@[simp] theorem setRowChecked_predicate (row : SelectableRow) (checked : Bool) :
    (setRowChecked s row checked).predicate = s.predicate := by
  unfold setRowChecked
  split <;> rfl

theorem TicksOk.set (h : TicksOk rows s.predicate s.included s.excluded) {row : SelectableRow}
    (hrow : row ∈ rows) (checked : Bool) :
    TicksOk rows s.predicate (setRowChecked s row checked).included
      (setRowChecked s row checked).excluded := by
  unfold setRowChecked
  split
  · rename_i hcovers
    refine ⟨h.included, fun e he => ?_⟩
    cases checked with
    | true => exact h.excluded e (KeyedTable.mem_erase.1 he).1
    | false =>
      obtain rfl | ⟨hold, -⟩ := KeyedTable.mem_put.1 he
      · exact ⟨row, hrow, rfl, hcovers⟩
      · exact h.excluded e hold
  · rename_i hcovers
    refine ⟨fun e he => ?_, h.excluded⟩
    cases checked with
    | true =>
      obtain rfl | ⟨hold, -⟩ := KeyedTable.mem_put.1 he
      · exact ⟨row, hrow, rfl, eq_false_of_ne_true hcovers⟩
      · exact h.included e hold
    | false => exact h.included e (KeyedTable.mem_erase.1 he).1

@[simp] theorem checkRows_predicate (picked : List SelectableRow) :
    (checkRows s picked).predicate = s.predicate := by
  unfold checkRows
  induction picked generalizing s with
  | nil => rfl
  | cons row picked ih => rw [List.foldl_cons, ih, setRowChecked_predicate]

theorem TicksOk.check (h : TicksOk rows s.predicate s.included s.excluded)
    (picked : List SelectableRow) (hpicked : ∀ r ∈ picked, r ∈ rows) :
    TicksOk rows s.predicate (checkRows s picked).included (checkRows s picked).excluded := by
  induction picked generalizing s with
  | nil => exact h
  | cons row picked ih =>
    have hset := h.set (hpicked row List.mem_cons_self) true
    rw [← setRowChecked_predicate row true] at hset
    have hrest := ih hset fun r hr => hpicked r (List.mem_cons_of_mem row hr)
    rw [setRowChecked_predicate] at hrest
    exact hrest

end Gestures

section Steps

variable {M : Mailbox} {s t : Screen}

theorem Inv.cleared (loaded : List SelectableRow) (scope : SelectionScope) (unreadOnly : Bool)
    (hloaded : ∀ r ∈ loaded, r ∈ M.listRows scope unreadOnly) :
    Inv M ⟨scope, unreadOnly, loaded, emptySelection⟩ where
  loaded := hloaded
  scope := Or.inr rfl
  ticks := .empty
  base _ hb := by cases hb
  anchor _ ha := by cases ha
  predicate _ hp := by cases hp

theorem Inv.row (h : Inv M s) {row : SelectableRow} (hrow : s.rowsById id = some row) :
    row ∈ M.listRows s.scope s.unreadOnly ∧ row ∈ s.loaded ∧ row.id = id := by
  have hin := List.mem_of_find?_eq_some hrow
  have hid := List.find?_some hrow
  exact ⟨h.loaded row hin, hin, of_decide_eq_true hid⟩

theorem Inv.anchored (h : Inv M s) {row : SelectableRow} (hin : row ∈ s.loaded) (checked : Bool) :
    Inv M { s with
      selection := anchored (setRowChecked s.selection row checked) row s.scope } := by
  have hset := h.ticks.set (h.loaded row hin) checked
  have hpredicate := setRowChecked_predicate (s := s.selection) row checked
  refine ⟨h.loaded, Or.inl rfl, ?_, fun b hb => ?_, fun a ha => ?_, fun p hp => h.predicate p ?_⟩
  · show TicksOk _ (setRowChecked s.selection row checked).predicate _ _
    rw [hpredicate]
    exact hset
  · cases hb
    show TicksOk _ (setRowChecked s.selection row checked).predicate _ _
    rw [hpredicate]
    exact hset
  · cases ha
    exact ⟨List.mem_map_of_mem hin, rfl⟩
  · rw [← hpredicate]
    exact hp

theorem Inv.extended (h : Inv M s) {b : Ticks × Ticks} (hbase : s.selection.anchorBase = some b)
    (picked : List SelectableRow) (hpicked : ∀ r ∈ picked, r ∈ s.loaded) :
    Inv M { s with
      selection :=
        { checkRows { s.selection with included := b.1, excluded := b.2 } picked with
          scope := some s.scope, anchorId := s.selection.anchorId,
          anchorBase := s.selection.anchorBase } } := by
  have hpredicate := checkRows_predicate
    (s := { s.selection with included := b.1, excluded := b.2 }) picked
  refine ⟨h.loaded, Or.inl rfl, ?_, fun b' hb' => ?_, h.anchor, fun p hp => h.predicate p ?_⟩
  · show TicksOk _ (checkRows _ picked).predicate _ _
    rw [hpredicate]
    exact TicksOk.check (s := { s.selection with included := b.1, excluded := b.2 })
      (h.base b hbase) picked fun r hr => h.loaded r (hpicked r hr)
  · show TicksOk _ (checkRows _ picked).predicate _ _
    rw [hpredicate]
    exact h.base b' hb'
  · rw [← hpredicate]
    exact hp

theorem Inv.selected (h : Inv M s) (picked : List SelectableRow) (hpicked : ∀ r ∈ picked, r ∈ s.loaded) :
    Inv M { s with
      selection :=
        { checkRows s.selection picked with
          scope := some s.scope, anchorId := none, anchorBase := none } } := by
  have hpredicate := checkRows_predicate (s := s.selection) picked
  refine ⟨h.loaded, Or.inl rfl, ?_, fun b' hb' => (by cases hb'), fun a ha => (by cases ha),
    fun p hp => h.predicate p ?_⟩
  · show TicksOk _ (checkRows _ picked).predicate _ _
    rw [hpredicate]
    exact h.ticks.check picked fun r hr => h.loaded r (hpicked r hr)
  · rw [← hpredicate]
    exact hp

/-- **The step lemma.** -/
theorem Inv.preserved {l : Label} (h : Inv M s) (hp : Settled M s l) (hst : step M s l = some t) :
    Inv M t := by
  have heffective : selectionForScope s.selection s.scope = s.selection := h.effective
  cases l with
  | openList scope unreadOnly =>
    cases hst
    exact .cleared [] scope unreadOnly fun r hr => by cases hr
  | load rows =>
    obtain ⟨⟨hlisted, hkept⟩, hst⟩ := Option.ite_none_right_eq_some.1 hst
    cases hst
    refine ⟨hlisted, h.scope, h.ticks, h.base, fun a ha => ?_, h.predicate⟩
    obtain ⟨hin, hbase⟩ := h.anchor a ha
    obtain ⟨r, hr, rfl⟩ := List.mem_map.1 hin
    exact ⟨List.mem_map_of_mem (hkept r hr), hbase⟩
  | toggle id =>
    obtain ⟨row, hrow, rfl⟩ := Option.map_eq_some_iff.1 hst
    unfold toggleRow
    rw [heffective]
    exact h.anchored (h.row hrow).2.1 _
  | shift id =>
    obtain ⟨row, hrow, rfl⟩ := Option.map_eq_some_iff.1 hst
    unfold extendRange
    rw [heffective, hrow]
    dsimp only
    split
    · rename_i anchorId base hanchor hbase
      split
      · refine h.extended hbase _ fun r hr => ?_
        obtain ⟨id', -, hr'⟩ := List.mem_filterMap.1 hr
        exact (h.row hr').2.1
      · exact h
    · exact h.anchored (h.row hrow).2.1 true
  | selectLoaded =>
    cases hst
    unfold selectRows
    rw [heffective]
    exact h.selected s.loaded fun r hr => hr
  | selectAll filter now =>
    unfold step at hst
    unfold Settled at hp
    cases hplace : s.scope.place with
    | unified name =>
      rw [hplace] at hst
      cases hst
    | folder accountId folderId =>
      rw [hplace] at hst hp
      cases hst
      refine ⟨h.loaded, Or.inl rfl, .empty, fun b hb => (by cases hb),
        fun a ha => (by cases ha), fun p hp' => ?_⟩
      cases hp'
      exact ⟨hplace, rfl, hp⟩
  | clear =>
    cases hst
    exact .cleared s.loaded s.scope s.unreadOnly h.loaded

end Steps

/-! ## Ticked rows -/

section Rows

variable {M : Mailbox} {scope : SelectionScope} {unreadOnly : Bool} {row row' : SelectableRow}

theorem rows_nodup : ((M.listRows scope unreadOnly).map SelectableRow.id).Nodup := by
  rw [Mailbox.listRows, List.map_map]
  exact listed_nodup

theorem row_inj (h : row ∈ M.listRows scope unreadOnly) (h' : row' ∈ M.listRows scope unreadOnly)
    (hid : row.id = row'.id) : row = row' :=
  List.inj_on_of_nodup_map rows_nodup h h' hid

theorem has_iff {m : Ticks} : m.has id = true ↔ id ∈ m.rows.map Prod.fst :=
  decide_eq_true_iff

end Rows

section Ticked

variable {M : Mailbox} {s : Screen} {row : SelectableRow} {r : MailRow}

theorem Inv.own (h : Inv M s) : Own M (s.selection.included.rows.map Prod.fst) := by
  intro id hid
  obtain ⟨e, he, rfl⟩ := List.mem_map.1 hid
  obtain ⟨row, hrow, rfl, -⟩ := h.ticks.included e he
  obtain ⟨r, hr, rfl⟩ := List.mem_map.1 hrow
  obtain hlive | ⟨g, hg, rfl⟩ := listed_cases hr
  · exact Or.inl ⟨r, hlive, rfl⟩
  · exact Or.inr ⟨g, hg.row, rfl⟩

theorem Inv.mem_included (h : Inv M s) (hrow : row ∈ M.listRows s.scope s.unreadOnly)
    (hin : row.id ∈ s.selection.included.rows.map Prod.fst) :
    (row.id, row.accountId) ∈ s.selection.included.rows ∧
      covers s.selection.predicate row = false := by
  obtain ⟨e, he, hid⟩ := List.mem_map.1 hin
  obtain ⟨row', hrow', rfl, hcovers⟩ := h.ticks.included e he
  obtain rfl := row_inj hrow' hrow hid
  exact ⟨he, hcovers⟩

theorem Inv.mem_excluded (h : Inv M s) (hrow : row ∈ M.listRows s.scope s.unreadOnly)
    (hin : row.id ∈ s.selection.excluded.rows.map Prod.fst) :
    covers s.selection.predicate row = true := by
  obtain ⟨e, he, hid⟩ := List.mem_map.1 hin
  obtain ⟨row', hrow', rfl, hcovers⟩ := h.ticks.excluded e he
  obtain rfl := row_inj hrow' hrow hid
  exact hcovers

theorem selected_iff (h : Inv M s) (hrow : row ∈ M.listRows s.scope s.unreadOnly) :
    isRowSelected s.selection row = true ↔
      (covers s.selection.predicate row = true ∧
        row.id ∉ s.selection.excluded.rows.map Prod.fst) ∨
      row.id ∈ s.selection.included.rows.map Prod.fst := by
  unfold isRowSelected
  split
  · rename_i hcovers
    rw [Bool.not_eq_true', ← Bool.not_eq_true, has_iff]
    constructor
    · exact fun hnot => Or.inl ⟨hcovers, hnot⟩
    · rintro (⟨-, hnot⟩ | hin)
      · exact hnot
      · rw [(h.mem_included hrow hin).2] at hcovers
        cases hcovers
  · rename_i hcovers
    rw [has_iff]
    exact ⟨Or.inr, fun hor => hor.resolve_left fun hand => hcovers hand.1⟩

/-! ## The request of a predicate -/

def scopeOf (s : SelectionState) (p : SelectionPredicate) : BulkActionScope where
  folderId := p.folderId
  filter := p.filter
  snapshotAt := p.snapshotAt
  excludeIds := s.excluded.rows.map Prod.fst

def targetOf (s : SelectionState) (p : SelectionPredicate) : BulkActionTarget where
  ids := if s.included.rows.length = 0 then none else some (s.included.rows.map Prod.fst)
  scope := some (scopeOf s p)
  expandThreads := false

theorem acted_predicate {action : Action} {through : Option Time} {s : SelectionState} (hp : s.predicate = some p) :
    acted M action through s = M.resolveBulk action through (p.accountId, targetOf s p) := by
  unfold acted buildBulkRequests
  rw [hp]
  exact List.flatMap_singleton _ _

theorem targetOf_ids {s : SelectionState} :
    (targetOf s p).ids.getD [] = s.included.rows.map Prod.fst := by
  unfold targetOf
  split
  · rename_i hempty
    rw [List.eq_nil_of_length_eq_zero hempty]
    rfl
  · rfl

theorem targetOf_accepts (h : Inv M s) (p : SelectionPredicate) :
    Mailbox.accepts (targetOf s.selection p) = true := by
  unfold Mailbox.accepts
  rw [Bool.and_eq_true, Bool.or_eq_true, targetOf_ids]
  refine ⟨Or.inr rfl, List.all_eq_true.2 fun id hid => decide_eq_true fun hexcluded => ?_⟩
  obtain ⟨e, he, rfl⟩ := List.mem_map.1 hid
  obtain ⟨row, hrow, rfl, hcovers⟩ := h.ticks.included e he
  rw [h.mem_excluded hrow hexcluded] at hcovers
  cases hcovers

theorem covers_iff (hp : PredicateOk M s.scope.place p)
    (hr : r ∈ M.listMessages s.scope s.unreadOnly) :
    covers (some p) (Mailbox.summary r) = true ↔
      r.createdAt ≤ p.snapshotAt ∧ Mailbox.filterHolds p.filter r = true := by
  unfold covers matchesPredicate Mailbox.summary Mailbox.filterHolds
  simp [(listed_folder hp.place hr).2, and_comm]

theorem takes_iff (hp : PredicateOk M s.scope.place p)
    (hr : r ∈ M.listMessages s.scope s.unreadOnly) :
    takes (scopeOf s.selection p) r = true ↔ covers (some p) (Mailbox.summary r) = true ∧
      r.id ∉ s.selection.excluded.rows.map Prod.fst := by
  rw [covers_iff hp hr]
  unfold takes scopeOf
  simp only [(listed_folder hp.place hr).2, Bool.and_eq_true, decide_eq_true_eq, true_and]

theorem takesGlacier_iff (hp : PredicateOk M s.scope.place p)
    {g : GlacierRow} (hg : InGlacier M g) (hr : g.toMailRow ∈ M.listMessages s.scope s.unreadOnly) :
    takesGlacier (scopeOf s.selection p) g = true ↔
      covers (some p) (Mailbox.summary g.toMailRow) = true ∧
        g.id ∉ s.selection.excluded.rows.map Prod.fst := by
  rw [covers_iff hp hr]
  obtain ⟨v, hv⟩ := Option.isSome_iff_exists.1 hg.visible
  have hfolder := (listed_folder hp.place hr).2
  -- the row was shown by the moment exactly if its message was mirrored by it
  have hmoment : v ≤ p.snapshotAt ↔ g.createdAt ≤ p.snapshotAt := by
    constructor
    · exact fun hle => Nat.le_trans (M.mirrored g hg.row v hv) hle
    · exact fun hle => hp.still g hg.row hfolder hle v hv
  unfold takesGlacier scopeOf
  simp only [hfolder, hv, Option.any_some, hmoment, Bool.and_eq_true, decide_eq_true_eq, true_and]

theorem live_of_id (hr : r ∈ M.listMessages s.scope s.unreadOnly) {m : MailRow} (hm : Live M m)
    (hid : m.id = r.id) : m = r := by
  obtain hlive | ⟨g, hg, rfl⟩ := listed_cases hr
  · exact M.messages.eq_of_key_eq hm.1 hlive.1 hid
  · exact absurd hid.symm (M.apart g hg.row m hm.1)

theorem glacier_of_id (hr : r ∈ M.listMessages s.scope s.unreadOnly) {g : GlacierRow}
    (hg : InGlacier M g) (hid : g.id = r.id) : g.toMailRow = r := by
  obtain hlive | ⟨g', hg', rfl⟩ := listed_cases hr
  · exact absurd hid (M.apart g hg.row r hlive.1)
  · rw [M.glacier.eq_of_key_eq hg.row hg'.row hid]

/-- A selection by filter acts on the rows it shows as ticked. -/
theorem agrees_predicate (h : Inv M s)
    (hp : s.selection.predicate = some p) (action : Action) (through : Option Time)
    (hr : r ∈ M.listMessages s.scope s.unreadOnly) :
    isRowSelected s.selection (Mailbox.summary r) = true ↔
      r.id ∈ acted M action through s.selection := by
  have hok := h.predicate p hp
  have hrow : Mailbox.summary r ∈ M.listRows s.scope s.unreadOnly := List.mem_map_of_mem hr
  have hown : Own M ((targetOf s.selection p).ids.getD []) := by
    rw [targetOf_ids]
    exact h.own
  have haccount := (listed_folder hok.place hr).1
  rw [selected_iff h hrow, acted_predicate hp, hp]
  constructor
  · intro hselected
    obtain hlive | ⟨g, hg, rfl⟩ := listed_cases hr
    · refine resolves_live hown (targetOf_accepts h p) hlive haccount ?_
      rw [targetOf_ids]
      exact hselected.imp (fun hin => ⟨_, rfl, (takes_iff hok hr).2 hin⟩) fun hin => hin
    · refine resolves_glacier hown (targetOf_accepts h p) hg haccount ?_
      rw [targetOf_ids]
      exact hselected.imp (fun hin => ⟨_, rfl, (takesGlacier_iff hok hg hr).2 hin⟩) fun hin => hin
  · intro hin
    obtain ⟨m, hm, -, hid, hwhy⟩ | ⟨g, hg, -, hid, hwhy⟩ := resolved_cases hown hin
    · obtain rfl := live_of_id hr hm hid
      rw [targetOf_ids] at hwhy
      obtain ⟨scope, hscope, htakes⟩ | hnamed | ⟨hexpand, -⟩ := hwhy
      · cases hscope
        exact Or.inl ((takes_iff hok hr).1 htakes)
      · exact Or.inr hnamed
      · cases hexpand
    · obtain rfl := glacier_of_id hr hg hid
      rw [targetOf_ids] at hwhy
      obtain ⟨scope, hscope, htakes⟩ | hnamed := hwhy
      · cases hscope
        exact Or.inl ((takesGlacier_iff hok hg hr).1 htakes)
      · exact Or.inr hnamed

/-! ## The requests of rows ticked one by one -/

def targetAt (s : SelectionState) (accountId : Uuid) : BulkActionTarget where
  ids := some ((s.included.rows.filter fun e => decide (e.2 = accountId)).map Prod.fst)
  scope := none
  expandThreads := s.scope.any SelectionScope.threaded

theorem mem_acted {action : Action} {through : Option Time} {s : SelectionState}
    (hp : s.predicate = none) : id ∈ acted M action through s ↔
      ∃ a ∈ s.included.rows.map Prod.snd, id ∈ M.resolveBulk action through (a, targetAt s a) := by
  unfold acted buildBulkRequests
  rw [hp]
  rw [List.mem_flatMap]
  constructor
  · rintro ⟨request, hrequest, hin⟩
    obtain ⟨a, ha, rfl⟩ := List.mem_map.1 hrequest
    exact ⟨a, List.mem_eraseDups.1 ha, hin⟩
  · rintro ⟨a, ha, hin⟩
    exact ⟨_, List.mem_map_of_mem (List.mem_eraseDups.2 ha), hin⟩

theorem mem_targetAt {s : SelectionState} {a : Uuid} :
    id ∈ (targetAt s a).ids.getD [] ↔ (id, a) ∈ s.included.rows := by
  unfold targetAt
  dsimp only [Option.getD_some]
  rw [List.mem_map]
  constructor
  · rintro ⟨e, he, rfl⟩
    obtain ⟨hin, hacc⟩ := List.mem_filter.1 he
    rw [← of_decide_eq_true hacc]
    exact hin
  · intro hin
    exact ⟨(id, a), List.mem_filter.2 ⟨hin, decide_eq_true rfl⟩, rfl⟩

/-- A selection by ticks acts on the rows it shows as ticked. -/
theorem agrees_picked (h : Inv M s) (hp : s.selection.predicate = none) (action : Action)
    (through : Option Time) (hr : r ∈ M.listMessages s.scope s.unreadOnly) :
    isRowSelected s.selection (Mailbox.summary r) = true ↔
      r.id ∈ acted M action through s.selection := by
  have hrow : Mailbox.summary r ∈ M.listRows s.scope s.unreadOnly := List.mem_map_of_mem hr
  have hown : ∀ a, Own M ((targetAt s.selection a).ids.getD []) := by
    intro a id hid
    exact h.own id (List.mem_map_of_mem (mem_targetAt.1 hid))
  rw [selected_iff h hrow, mem_acted hp, hp]
  constructor
  · rintro (⟨hcovers, -⟩ | hin)
    · cases hcovers
    · obtain ⟨hentry, -⟩ := h.mem_included hrow hin
      refine ⟨r.accountId, List.mem_map_of_mem hentry, ?_⟩
      have hnamed := mem_targetAt.2 hentry
      obtain hlive | ⟨g, hg, rfl⟩ := listed_cases hr
      · exact resolves_live (hown _) rfl hlive rfl (Or.inr hnamed)
      · exact resolves_glacier (hown _) rfl hg rfl (Or.inr hnamed)
  · rintro ⟨a, -, hin⟩
    right
    obtain ⟨m, hm, -, hid, hwhy⟩ | ⟨g, hg, -, hid, hwhy⟩ := resolved_cases (hown a) hin
    · obtain rfl := live_of_id hr hm hid
      obtain ⟨scope, hscope, -⟩ | hnamed | ⟨hexpand, m', hm', hnamed, -, hthread, -⟩ := hwhy
      · cases hscope
      · exact List.mem_map_of_mem (f := Prod.fst) (mem_targetAt.1 hnamed)
      · -- the list has one row of a conversation
        have hentry := mem_targetAt.1 hnamed
        obtain ⟨row', hrow', heq, -⟩ := h.ticks.included _ hentry
        obtain ⟨r', hr', rfl⟩ := List.mem_map.1 hrow'
        obtain rfl := live_of_id hr' hm' (congrArg Prod.fst heq).symm
        have hthreaded : s.scope.threaded = true := by
          obtain hsame | hempty := h.scope
          · simpa [targetAt, hsame] using hexpand
          · rw [hempty] at hentry
            cases hentry
        obtain rfl := listed_thread hthreaded hr' hr hthread
        exact List.mem_map_of_mem (f := Prod.fst) hentry
    · obtain ⟨scope, hscope, -⟩ | hnamed := hwhy
      · cases hscope
      · exact List.mem_map_of_mem (f := Prod.fst) (mem_targetAt.1 hnamed)

/-- **Ticked rows are taken, and only these.** -/
theorem Inv.agrees (h : Inv M s) : Agrees M s := by
  intro action through row hrow
  obtain ⟨r, hr, rfl⟩ := List.mem_map.1 hrow
  rw [h.effective]
  cases hp : s.selection.predicate with
  | none => exact agrees_picked h hp action through hr
  | some p => exact agrees_predicate h hp action through hr

end Ticked

end MailVerdict.Analysis.TickedRows
