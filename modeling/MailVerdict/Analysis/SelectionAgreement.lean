import MailVerdict.Analysis.TickedRows

/-!
# The size of a selection and its ranges

With the rows of a list and the requests in agreement the size shown follows: of rows ticked
one by one it is their number, of everything in a folder the number of messages the request
takes. A range is ticked over what its anchor left, so it forgets the ranges before it.
-/

namespace MailVerdict.Analysis.SelectionAgreement

open MailVerdict.Computation Model.MailActions Model.Selection
open Analysis.BulkSelection Analysis.TickedRows

variable {p : SelectionPredicate} {id : Uuid}

/-! ## The properties -/

/-- The size shown is the number of ticked rows while rows are ticked one by one. Of everything
in a folder it is the number of messages the request takes, and that of ticked rows where the
list has a row for each of these. -/
def Counted (M : Mailbox) (s : Screen) : Prop :=
  (s.effective.predicate = none → selectionSize s.effective = (ticked M s).length) ∧
    ∀ p, s.effective.predicate = some p →
      (∀ action through,
        selectionSize s.effective = (acted M action through s.effective).length) ∧
      (s.scope.threaded = false → (s.unreadOnly = true → p.filter = .unread) →
        selectionSize s.effective = (ticked M s).length)

def isExtension : Label → Bool
  | .shift _ | .load _ => true
  | _ => false

/-- Shift-clicks from one anchor come to what the last of them comes to alone. -/
def LastShift (M : Mailbox) (s : Screen) : Prop :=
  s.effective.anchorId.isSome = true → ∀ ls t, (∀ l ∈ ls, isExtension l = true) →
    (system M).exec s ls = some t → ∀ id,
      (step M t (.shift id)).map Screen.selection =
        (step M { t with selection := s.selection } (.shift id)).map Screen.selection

section Size

variable {M : Mailbox} {s : Screen} {r : MailRow}

/-! ## The size of a selection -/

theorem length_eq_of_nodup {l l' : List Uuid} (h : l.Nodup) (h' : l'.Nodup)
    (hsame : ∀ id, id ∈ l ↔ id ∈ l') : l.length = l'.length :=
  ((List.perm_ext_iff_of_nodup h h').2 hsame).length_eq

theorem ticked_nodup : ((ticked M s).map SelectableRow.id).Nodup :=
  rows_nodup.sublist (List.filter_sublist.map SelectableRow.id)

theorem counted_picked (h : Inv M s) (hp : s.selection.predicate = none) :
    selectionSize s.selection = (ticked M s).length := by
  unfold selectionSize
  rw [hp]
  have hlength := length_eq_of_nodup s.selection.included.primaryKey (ticked_nodup (M := M) (s := s))
    fun id => ?_
  · rw [List.length_map, List.length_map] at hlength
    rw [hlength]
  · unfold ticked
    rw [h.effective]
    constructor
    · intro hin
      obtain ⟨e, he, rfl⟩ := List.mem_map.1 hin
      obtain ⟨row, hrow, rfl, -⟩ := h.ticks.included e he
      refine List.mem_map_of_mem (f := SelectableRow.id) (List.mem_filter.2 ⟨hrow, ?_⟩)
      exact (selected_iff h hrow).2 (Or.inr hin)
    · intro hin
      obtain ⟨row, hmem, rfl⟩ := List.mem_map.1 hin
      obtain ⟨hrow, hselected⟩ := List.mem_filter.1 hmem
      obtain ⟨hcovers, -⟩ | hticked := (selected_iff h hrow).1 hselected
      · rw [hp] at hcovers
        cases hcovers
      · exact hticked

def counted (M : Mailbox) (p : SelectionPredicate) : List Uuid :=
  if M.glacierAccount p.folderId = some p.accountId then
    (M.glacier.rows.filter fun g => decide (g.accountId = p.accountId) &&
      (g.visibleAt.any fun v => decide (v ≤ p.snapshotAt)) &&
        Mailbox.filterHolds p.filter g.toMailRow).map fun g => g.id
  else
    (M.messages.rows.filter fun m => decide (m.accountId = p.accountId) &&
      decide (m.folderId = p.folderId) && !m.expunged && decide (m.createdAt ≤ p.snapshotAt) &&
        Mailbox.filterHolds p.filter m).map MailRow.id

theorem length_counted (p : SelectionPredicate) :
    (counted M p).length = M.mintSelection p.accountId p.folderId p.filter p.snapshotAt := by
  unfold counted Mailbox.mintSelection
  split
  · rw [List.length_map, List.countP_eq_length_filter]
  · rw [List.length_map, List.countP_eq_length_filter]

theorem counted_nodup (p : SelectionPredicate) : (counted M p).Nodup := by
  unfold counted
  split
  · exact M.glacier.primaryKey.sublist (List.filter_sublist.map fun g : GlacierRow => g.id)
  · exact M.messages.primaryKey.sublist (List.filter_sublist.map MailRow.id)

/-- The ids a count is over, live and in the glacier. -/
theorem mem_counted (excluded : List Uuid) :
    id ∈ counted M p ∧ id ∉ excluded ↔
      (∃ m, Live M m ∧ m.accountId = p.accountId ∧ m.id = id ∧
        takes ⟨p.folderId, p.filter, p.snapshotAt, excluded⟩ m = true) ∨
      ∃ g, InGlacier M g ∧ g.accountId = p.accountId ∧ g.id = id ∧
        takesGlacier ⟨p.folderId, p.filter, p.snapshotAt, excluded⟩ g = true := by
  unfold counted
  split
  · rename_i hglacier
    have hfolder := (M.coherent _ _).1 hglacier
    constructor
    · rintro ⟨hin, hnot⟩
      obtain ⟨g, hg, rfl⟩ := List.mem_map.1 hin
      obtain ⟨hrow, hholds⟩ := List.mem_filter.1 hg
      simp only [Bool.and_eq_true, decide_eq_true_eq] at hholds
      obtain ⟨⟨hacc, hv⟩, hfilter⟩ := hholds
      have hf : g.folderId = p.folderId := M.filed g hrow p.folderId (by rw [hacc, hfolder])
      have hvisible : g.visibleAt.isSome = true := by
        obtain ⟨v, hvis, -⟩ := (Option.any_eq_true _ _).1 hv
        rw [hvis]
        rfl
      refine Or.inr ⟨g, ⟨hrow, hvisible, by rw [hacc, hf, hfolder]⟩, hacc, rfl, ?_⟩
      simp only [takesGlacier, Bool.and_eq_true, decide_eq_true_eq]
      exact ⟨⟨⟨hf, hv⟩, hfilter⟩, hnot⟩
    · rintro (⟨m, hm, -, rfl, htakes⟩ | ⟨g, hg, hacc, rfl, htakes⟩)
      · simp only [takes, Bool.and_eq_true, decide_eq_true_eq] at htakes
        have hnone := M.onServer m hm.1
        rw [htakes.1.1.1, hglacier] at hnone
        cases hnone
      · simp only [takesGlacier, Bool.and_eq_true, decide_eq_true_eq] at htakes
        obtain ⟨⟨⟨-, hv⟩, hfilter⟩, hnot⟩ := htakes
        refine ⟨List.mem_map_of_mem (f := fun g : GlacierRow => g.id)
          (List.mem_filter.2 ⟨hg.row, ?_⟩), hnot⟩
        simp only [Bool.and_eq_true, decide_eq_true_eq]
        exact ⟨⟨hacc, hv⟩, hfilter⟩
  · rename_i hserver
    constructor
    · rintro ⟨hin, hnot⟩
      obtain ⟨m, hm, rfl⟩ := List.mem_map.1 hin
      obtain ⟨hrow, hholds⟩ := List.mem_filter.1 hm
      simp only [Bool.and_eq_true, decide_eq_true_eq, Bool.not_eq_true'] at hholds
      obtain ⟨⟨⟨⟨hacc, hf⟩, hexp⟩, ht⟩, hfilter⟩ := hholds
      refine Or.inl ⟨m, ⟨hrow, hexp⟩, hacc, rfl, ?_⟩
      simp only [takes, Bool.and_eq_true, decide_eq_true_eq]
      exact ⟨⟨⟨hf, ht⟩, hfilter⟩, hnot⟩
    · rintro (⟨m, hm, hacc, rfl, htakes⟩ | ⟨g, hg, hacc, rfl, htakes⟩)
      · simp only [takes, Bool.and_eq_true, decide_eq_true_eq] at htakes
        obtain ⟨⟨⟨hf, ht⟩, hfilter⟩, hnot⟩ := htakes
        refine ⟨List.mem_map_of_mem (f := MailRow.id) (List.mem_filter.2 ⟨hm.1, ?_⟩), hnot⟩
        simp only [Bool.and_eq_true, decide_eq_true_eq, Bool.not_eq_true']
        exact ⟨⟨⟨⟨hacc, hf⟩, hm.2⟩, ht⟩, hfilter⟩
      · simp only [takesGlacier, Bool.and_eq_true, decide_eq_true_eq] at htakes
        have hknown := (M.coherent _ _).2 hg.folder
        rw [htakes.1.1.1, hacc] at hknown
        exact absurd hknown hserver

theorem excluded_counted (h : Inv M s) (hp : s.selection.predicate = some p)
    (hin : id ∈ s.selection.excluded.rows.map Prod.fst) : id ∈ counted M p := by
  have hok := h.predicate p hp
  obtain ⟨e, he, rfl⟩ := List.mem_map.1 hin
  obtain ⟨row, hrow, rfl, hcovers⟩ := h.ticks.excluded e he
  obtain ⟨r, hr, rfl⟩ := List.mem_map.1 hrow
  rw [hp] at hcovers
  have haccount := (listed_folder hok.place hr).1
  -- it is taken by the scope without its exceptions
  refine ((mem_counted []).2 ?_).1
  obtain hlive | ⟨g, hg, rfl⟩ := listed_cases hr
  · refine Or.inl ⟨r, hlive, haccount, rfl, ?_⟩
    exact (takes_iff (s := { s with selection := emptySelection }) hok hr).2
      ⟨hcovers, List.not_mem_nil⟩
  · refine Or.inr ⟨g, hg, haccount, rfl, ?_⟩
    exact (takesGlacier_iff (s := { s with selection := emptySelection }) hok hg hr).2
      ⟨hcovers, List.not_mem_nil⟩

/-- A selection by filter acts on what it counts, less the unticked, and on the ticked. -/
theorem mem_acted_predicate (h : Inv M s)
    (hp : s.selection.predicate = some p) (action : Action) (through : Option Time) (id : Uuid) :
    id ∈ acted M action through s.selection ↔
      (id ∈ counted M p ∧ id ∉ s.selection.excluded.rows.map Prod.fst) ∨
        id ∈ s.selection.included.rows.map Prod.fst := by
  have hown : Own M ((targetOf s.selection p).ids.getD []) := by
    rw [targetOf_ids]
    exact h.own
  rw [mem_counted]
  constructor
  · intro hin
    rw [acted_predicate hp] at hin
    obtain ⟨m, hm, hacc, hid, hwhy⟩ | ⟨g, hg, hacc, hid, hwhy⟩ := resolved_cases hown hin
    · rw [targetOf_ids] at hwhy
      obtain ⟨scope, hscope, htakes⟩ | hnamed | ⟨hexpand, -⟩ := hwhy
      · cases hscope
        exact Or.inl (Or.inl ⟨m, hm, hacc, hid, htakes⟩)
      · exact Or.inr hnamed
      · cases hexpand
    · rw [targetOf_ids] at hwhy
      obtain ⟨scope, hscope, htakes⟩ | hnamed := hwhy
      · cases hscope
        exact Or.inl (Or.inr ⟨g, hg, hacc, hid, htakes⟩)
      · exact Or.inr hnamed
  · rintro ((⟨m, hm, hacc, rfl, htakes⟩ | ⟨g, hg, hacc, rfl, htakes⟩) | hin)
    · rw [acted_predicate hp]
      exact resolves_live hown (targetOf_accepts h p) hm hacc (Or.inl ⟨_, rfl, htakes⟩)
    · rw [acted_predicate hp]
      exact resolves_glacier hown (targetOf_accepts h p) hg hacc (Or.inl ⟨_, rfl, htakes⟩)
    · obtain ⟨e, he, rfl⟩ := List.mem_map.1 hin
      obtain ⟨row, hrow, rfl, -⟩ := h.ticks.included e he
      obtain ⟨r, hr, rfl⟩ := List.mem_map.1 hrow
      exact (agrees_predicate h hp action through hr).1 ((selected_iff h hrow).2 (Or.inr hin))

theorem included_not_counted (h : Inv M s) (hp : s.selection.predicate = some p)
    (hin : id ∈ s.selection.included.rows.map Prod.fst) : id ∉ counted M p := by
  have hok := h.predicate p hp
  obtain ⟨e, he, rfl⟩ := List.mem_map.1 hin
  obtain ⟨row, hrow, rfl, hcovers⟩ := h.ticks.included e he
  obtain ⟨r, hr, rfl⟩ := List.mem_map.1 hrow
  rw [hp] at hcovers
  intro hcounted
  have hinside : covers (some p) (Mailbox.summary r) = true := by
    obtain ⟨m, hm, -, hid, htakes⟩ | ⟨g, hg, -, hid, htakes⟩ :=
      (mem_counted []).1 ⟨hcounted, List.not_mem_nil⟩
    · obtain rfl := live_of_id hr hm hid
      exact ((takes_iff (s := { s with selection := emptySelection }) hok hr).1 htakes).1
    · obtain rfl := glacier_of_id hr hg hid
      exact ((takesGlacier_iff (s := { s with selection := emptySelection }) hok hg hr).1 htakes).1
  rw [hcovers] at hinside
  cases hinside

theorem length_filter_not_mem {l excluded : List Uuid} (h : l.Nodup) (h' : excluded.Nodup)
    (hsub : ∀ id ∈ excluded, id ∈ l) :
    (l.filter fun id => decide (id ∉ excluded)).length + excluded.length = l.length := by
  have hin : (l.filter fun id => decide (id ∈ excluded)).length = excluded.length := by
    refine length_eq_of_nodup (h.filter _) h' fun id => ?_
    rw [List.mem_filter, decide_eq_true_eq]
    exact ⟨And.right, fun hid => ⟨hsub id hid, hid⟩⟩
  have hsplit := l.length_eq_length_filter_add fun id => decide (id ∈ excluded)
  simp only [decide_not]
  omega

theorem counted_predicate (h : Inv M s)
    (hp : s.selection.predicate = some p) (action : Action) (through : Option Time) :
    selectionSize s.selection = (acted M action through s.selection).length := by
  have hok := h.predicate p hp
  have hnodup : (acted M action through s.selection).Nodup := by
    rw [acted_predicate hp]
    refine resolveBulk_nodup ?_
    rw [targetOf_ids]
    exact h.own
  have hparts : (((counted M p).filter fun id =>
      decide (id ∉ s.selection.excluded.rows.map Prod.fst)) ++
        s.selection.included.rows.map Prod.fst).Nodup := by
    rw [List.nodup_append]
    refine ⟨(counted_nodup p).filter _, s.selection.included.primaryKey, fun x hx y hy => ?_⟩
    rintro rfl
    exact included_not_counted h hp hy (List.mem_of_mem_filter hx)
  have hlength := length_eq_of_nodup hnodup hparts fun id => by
    rw [mem_acted_predicate h hp, List.mem_append, List.mem_filter, decide_eq_true_eq]
  have hexcluded := length_filter_not_mem (counted_nodup (M := M) p)
    s.selection.excluded.primaryKey fun id hid => excluded_counted h hp hid
  have hcount : (counted M p).length = p.count := by rw [length_counted, hok.count]
  rw [List.length_append, List.length_map] at hlength
  rw [List.length_map] at hexcluded
  unfold selectionSize
  rw [hp]
  dsimp only
  omega

theorem listed_of_entity {a f : Uuid} {filter : Filter} {m : MailRow}
    (hplace : s.scope.place = .folder a f) (hflat : s.scope.threaded = false)
    (hshows : s.unreadOnly = true → filter = .unread) (hentity : m ∈ M.listEntity s.scope.place)
    (hlive : m.expunged = false) (hacc : m.accountId = a) (hf : m.folderId = f)
    (hfilter : Mailbox.filterHolds filter m = true) : m ∈ M.listMessages s.scope s.unreadOnly := by
  unfold Mailbox.listMessages
  rw [if_neg (by rw [hflat]; exact Bool.false_ne_true)]
  refine List.mem_filter.2 ⟨hentity, ?_⟩
  unfold Mailbox.listFilters
  rw [hplace, hlive]
  cases hunread : s.unreadOnly with
  | false => simp [hacc, hf]
  | true =>
    rw [hshows hunread] at hfilter
    simpa [hacc, hf, Mailbox.filterHolds] using hfilter

theorem listed_of_live {a f : Uuid} {filter : Filter} {m : MailRow} (hplace : s.scope.place = .folder a f)
    (hflat : s.scope.threaded = false) (hshows : s.unreadOnly = true → filter = .unread)
    (hm : Live M m) (hacc : m.accountId = a) (hf : m.folderId = f)
    (hfilter : Mailbox.filterHolds filter m = true) :
    m ∈ M.listMessages s.scope s.unreadOnly := by
  have hentity : m ∈ M.listEntity s.scope.place := by
    rw [hplace, Mailbox.listEntity, ← hf, M.onServer m hm.1]
    exact hm.1
  exact listed_of_entity hplace hflat hshows hentity hm.2 hacc hf hfilter

theorem listed_of_glacier {a f : Uuid} {filter : Filter} {g : GlacierRow}
    (hplace : s.scope.place = .folder a f) (hflat : s.scope.threaded = false)
    (hshows : s.unreadOnly = true → filter = .unread) (hg : InGlacier M g) (hacc : g.accountId = a)
    (hf : g.folderId = f) (hfilter : Mailbox.filterHolds filter g.toMailRow = true) :
    g.toMailRow ∈ M.listMessages s.scope s.unreadOnly := by
  have hentity : g.toMailRow ∈ M.listEntity s.scope.place := by
    have hknown : M.glacierAccount f = some g.accountId := by
      rw [← hf]
      exact (M.coherent _ _).2 hg.folder
    rw [hplace, Mailbox.listEntity, hknown]
    exact List.mem_map_of_mem (mem_visible.2 ⟨hg.row, hg.visible⟩)
  exact listed_of_entity hplace hflat hshows hentity (M.kept g hg.row) hacc hf hfilter

/-- In a flat list the shown count of a selection is that of its ticked rows. -/
theorem counted_flat (h : Inv M s) (hp : s.selection.predicate = some p)
    (hflat : s.scope.threaded = false) (hshows : s.unreadOnly = true → p.filter = .unread) :
    selectionSize s.selection = (ticked M s).length := by
  have hok := h.predicate p hp
  rw [counted_predicate h hp .markRead none]
  have hnodup : (acted M .markRead none s.selection).Nodup := by
    rw [acted_predicate hp]
    refine resolveBulk_nodup ?_
    rw [targetOf_ids]
    exact h.own
  have hlisted : ∀ id ∈ acted M .markRead none s.selection,
      ∃ r ∈ M.listMessages s.scope s.unreadOnly, r.id = id := by
    intro id hin
    obtain hcounted | hpicked := (mem_acted_predicate h hp .markRead none id).1 hin
    · obtain ⟨m, hm, hacc, hid, htakes⟩ | ⟨g, hg, hacc, hid, htakes⟩ := (mem_counted _).1 hcounted
      · simp only [takes, Bool.and_eq_true, decide_eq_true_eq] at htakes
        exact ⟨m, listed_of_live hok.place hflat hshows hm hacc htakes.1.1.1 htakes.1.2, hid⟩
      · simp only [takesGlacier, Bool.and_eq_true, decide_eq_true_eq] at htakes
        exact ⟨g.toMailRow,
          listed_of_glacier hok.place hflat hshows hg hacc htakes.1.1.1 htakes.1.2, hid⟩
    · obtain ⟨e, he, rfl⟩ := List.mem_map.1 hpicked
      obtain ⟨row, hrow, rfl, -⟩ := h.ticks.included e he
      obtain ⟨r, hr, rfl⟩ := List.mem_map.1 hrow
      exact ⟨r, hr, rfl⟩
  have hlength := length_eq_of_nodup hnodup (ticked_nodup (M := M) (s := s)) fun id => ?_
  · rw [hlength, List.length_map]
  · unfold ticked
    rw [h.effective]
    constructor
    · intro hin
      obtain ⟨r, hr, rfl⟩ := hlisted id hin
      refine List.mem_map_of_mem (f := SelectableRow.id)
        (List.mem_filter.2 ⟨List.mem_map_of_mem (f := Mailbox.summary) hr, ?_⟩)
      exact (agrees_predicate h hp .markRead none hr).2 hin
    · intro hin
      obtain ⟨row, hmem, rfl⟩ := List.mem_map.1 hin
      obtain ⟨hrow, hselected⟩ := List.mem_filter.1 hmem
      obtain ⟨r, hr, rfl⟩ := List.mem_map.1 hrow
      exact (agrees_predicate h hp .markRead none hr).1 hselected

/-- **The size shown is right.** -/
theorem counted_of_inv (h : Inv M s) : Counted M s := by
  unfold Counted
  rw [h.effective]
  refine ⟨counted_picked h, fun p hp => ⟨counted_predicate h hp, counted_flat h hp⟩⟩

end Size

/-! ## Shift-clicks -/

section Ranges

variable {M : Mailbox} {s t : Screen}

/-- The same list, and the same anchor with what it left. -/
structure SameAnchor (s t : Screen) : Prop where
  scope : t.scope = s.scope
  predicate : t.selection.predicate = s.selection.predicate
  anchorId : t.selection.anchorId = s.selection.anchorId
  anchorBase : t.selection.anchorBase = s.selection.anchorBase
  made : t.selection.scope = s.selection.scope

theorem extendRange_anchored {σ : SelectionState} {visibleIds : List Uuid}
    {rowsById : Uuid → Option SelectableRow} {scope : SelectionScope} {anchorId targetId : Uuid}
    {targetRow : SelectableRow} {base : Ticks × Ticks} {i j : ℕ} (hmade : σ.scope = some scope)
    (hanchor : σ.anchorId = some anchorId) (hbase : σ.anchorBase = some base)
    (htarget : rowsById targetId = some targetRow) (hi : visibleIds.idxOf? anchorId = some i)
    (hj : visibleIds.idxOf? targetId = some j) :
    extendRange σ visibleIds rowsById targetId scope =
      { checkRows ⟨σ.predicate, base.1, base.2, some anchorId, some base, some scope⟩
          ((rangeOf visibleIds i j).filterMap rowsById) with
        scope := some scope, anchorId := some anchorId, anchorBase := some base } := by
  have hcurrent : selectionForScope σ scope = σ := by
    unfold selectionForScope
    rw [hmade]
    exact if_pos rfl
  unfold extendRange
  dsimp only
  rw [hcurrent, htarget]
  rw [hanchor, hbase]
  dsimp only
  rw [hi, hj, hmade]

theorem exists_idxOf {l : List Uuid} (h : id ∈ l) : ∃ i, l.idxOf? id = some i := by
  cases hfind : l.idxOf? id with
  | none => exact absurd h (List.idxOf?_eq_none_iff.1 hfind)
  | some i => exact ⟨i, rfl⟩

theorem made_of_anchored (h : Inv M s) (hanchor : s.selection.anchorId.isSome = true) :
    s.selection.scope = some s.scope := by
  refine h.scope.resolve_right fun hempty => ?_
  rw [hempty] at hanchor
  cases hanchor

theorem sameAnchor_step {l : Label} (h : Inv M s) (hanchor : s.selection.anchorId.isSome = true)
    (hl : isExtension l = true) (hst : step M s l = some t) : SameAnchor s t := by
  obtain ⟨anchorId, ha⟩ := Option.isSome_iff_exists.1 hanchor
  obtain ⟨hin, hsome⟩ := h.anchor anchorId ha
  obtain ⟨base, hbase⟩ := Option.isSome_iff_exists.1 hsome
  have hmade := made_of_anchored h hanchor
  cases l with
  | load rows =>
    obtain ⟨-, hst⟩ := Option.ite_none_right_eq_some.1 hst
    cases hst
    exact ⟨rfl, rfl, rfl, rfl, rfl⟩
  | shift id =>
    obtain ⟨row, hrow, rfl⟩ := Option.map_eq_some_iff.1 hst
    obtain ⟨i, hi⟩ := exists_idxOf hin
    obtain ⟨j, hj⟩ := exists_idxOf (List.mem_map_of_mem (f := SelectableRow.id) (h.row hrow).2.1)
    rw [(h.row hrow).2.2] at hj
    rw [extendRange_anchored hmade ha hbase hrow hi hj]
    exact ⟨rfl, checkRows_predicate _, ha.symm, hbase.symm, hmade.symm⟩
  | _ => cases hl

/-- **Of successive shift-clicks the last one counts.** -/
theorem lastShift_of_inv (h : Inv M s) : LastShift M s := by
  unfold LastShift
  rw [h.effective]
  intro hanchor ls t hls hexec id
  obtain ⟨ht, hsame⟩ : Inv M t ∧ SameAnchor s t := by
    refine TransitionSystem.exec_preserves (I := fun t => Inv M t ∧ SameAnchor s t) ls ?_
      ⟨h, ⟨rfl, rfl, rfl, rfl, rfl⟩⟩ hexec
    rintro l hl u v ⟨hu, hsame⟩ hst
    have hkept := sameAnchor_step hu (by rw [hsame.anchorId]; exact hanchor) (hls l hl) hst
    have hsettled : Settled M u l := by
      have hextends := hls l hl
      cases l with
      | shift id => exact trivial
      | load rows => exact trivial
      | _ => cases hextends
    refine ⟨hu.preserved hsettled hst, ⟨?_, ?_, ?_, ?_, ?_⟩⟩
    · rw [hkept.scope, hsame.scope]
    · rw [hkept.predicate, hsame.predicate]
    · rw [hkept.anchorId, hsame.anchorId]
    · rw [hkept.anchorBase, hsame.anchorBase]
    · rw [hkept.made, hsame.made]
  obtain ⟨anchorId, ha⟩ := Option.isSome_iff_exists.1 hanchor
  have ha' : t.selection.anchorId = some anchorId := by rw [hsame.anchorId, ha]
  obtain ⟨hin, hsome⟩ := ht.anchor anchorId ha'
  obtain ⟨base, hbase'⟩ := Option.isSome_iff_exists.1 hsome
  have hbase : s.selection.anchorBase = some base := by rw [← hsame.anchorBase, hbase']
  have hmade' := made_of_anchored ht (by rw [ha']; rfl)
  have hmade : s.selection.scope = some t.scope := by rw [← hsame.made, hmade']
  obtain ⟨i, hi⟩ := exists_idxOf hin
  show ((t.rowsById id).map _).map Screen.selection = ((t.rowsById id).map _).map Screen.selection
  cases hrow : t.rowsById id with
  | none => rfl
  | some row =>
    obtain ⟨j, hj⟩ := exists_idxOf
      (List.mem_map_of_mem (f := SelectableRow.id) (ht.row hrow).2.1)
    rw [(ht.row hrow).2.2] at hj
    have hlast := extendRange_anchored hmade' ha' hbase' hrow hi hj
    have halone := extendRange_anchored hmade ha hbase hrow hi hj
    rw [hsame.predicate] at hlast
    exact congrArg some (hlast.trans halone.symm)

end Ranges

/-- **A selection means the same on both sides**: where all in a glacier is selected only while it
is still, a row is ticked exactly if the request takes its message, the size shown is right, and
of successive shift-clicks the last one counts. -/
theorem selection_agrees (M : Mailbox) {s : Screen} (h : (system M).Reachable (Settled M) s) :
    Agrees M s ∧ Counted M s ∧ LastShift M s := by
  have hinv : Inv M s := by
    refine TransitionSystem.Reachable.invariant (fun s hs => ?_)
      (fun s l t hI hp hst => hI.preserved hp hst) h
    obtain ⟨scope, unreadOnly, loaded, selection⟩ := s
    obtain ⟨rfl, rfl⟩ := hs
    exact .cleared [] scope unreadOnly fun r hr => by cases hr
  exact ⟨hinv.agrees, counted_of_inv hinv, lastShift_of_inv hinv⟩

/-! ### A folder of two conversations -/

def mailOf (id threadId : Uuid) (createdAt : Time) (isSeen : Bool) : MailRow :=
  ⟨id, 1, 10, some threadId, createdAt, isSeen, false, false, none⟩

def twoConversations : Mailbox where
  messages := ⟨[mailOf 1 100 5 true, mailOf 2 100 6 false, mailOf 3 101 8 false], by decide⟩
  glacier := KeyedTable.empty
  receivedAt id := some id
  glacierFolder _ := none
  glacierAccount _ := none
  folders := [10]
  viewMembers _ := []
  apart _ hg := by cases hg
  origins _ hg := by cases hg
  departed _ hg := by cases hg
  mirrored _ hg := by cases hg
  kept _ hg := by cases hg
  coherent _ _ := ⟨fun h => (by cases h), fun h => (by cases h)⟩
  filed _ hg := by cases hg
  owned _ hg := by cases hg
  synthetic _ hg := by cases hg
  onServer _ _ := rfl

def noList : Screen := ⟨⟨.unified "", false⟩, false, [], emptySelection⟩

/-- The folder, one row for each message or one for each conversation. -/
def folderList (threaded : Bool) : SelectionScope := ⟨.folder 1 10, threaded⟩

/-- Everything there at 6 is selected; the second message is unticked and the third, which came
later, is ticked. -/
def exceptAndBesides : List Label :=
  [.openList (folderList false) false, .load (twoConversations.listRows (folderList false) false),
    .selectAll .all 6, .toggle 2, .toggle 3]

theorem except_and_besides_agree :
    ∃ s, (system twoConversations).exec noList exceptAndBesides = some s ∧
      (ticked twoConversations s).map SelectableRow.id = [1, 3] ∧
        Agrees twoConversations s ∧ Counted twoConversations s ∧ LastShift twoConversations s := by
  have hruns : ((system twoConversations).exec noList exceptAndBesides).any (fun s =>
      decide ((ticked twoConversations s).map SelectableRow.id = [1, 3])) = true := by
    decide +kernel
  obtain ⟨s, hexec, hticked⟩ := (Option.any_eq_true _ _).1 hruns
  have hreachable : (system twoConversations).Reachable (Settled twoConversations) s :=
    TransitionSystem.reachable_of_exec exceptAndBesides ⟨rfl, rfl⟩ (by decide +kernel) hexec
  exact ⟨s, hexec, of_decide_eq_true hticked, selection_agrees twoConversations hreachable⟩

/-- Everything in the folder is selected while the list is grouped by conversation. -/
def everythingGrouped : List Label :=
  [.openList (folderList true) false, .load (twoConversations.listRows (folderList true) false),
    .selectAll .all 9]

/-- Three messages are selected, and two rows are ticked. -/
theorem grouped_counts_messages :
    ∃ s, (system twoConversations).exec noList everythingGrouped = some s ∧
      selectionSize s.effective = 3 ∧ (ticked twoConversations s).length = 2 := by
  have hruns : ((system twoConversations).exec noList everythingGrouped).any (fun s =>
      decide (selectionSize s.effective = 3) &&
        decide ((ticked twoConversations s).length = 2)) = true := by decide +kernel
  obtain ⟨s, hexec, hboth⟩ := (Option.any_eq_true _ _).1 hruns
  obtain ⟨hsize, hticked⟩ := Bool.and_eq_true_iff.1 hboth
  exact ⟨s, hexec, of_decide_eq_true hsize, of_decide_eq_true hticked⟩

end MailVerdict.Analysis.SelectionAgreement
