import MailVerdict.Model.Selection
import MailVerdict.Analysis.UndoRestores

/-!
# What a bulk request resolves to

The rows of a list are live messages and visible rows of a glacier, each with an id of its
own. A request that names such ids takes the live message or the glacier row of each, and
with a scope what the scope takes of the two tables (`mem_resolveBulk`), none of them twice
(`resolveBulk_nodup`).
-/

namespace MailVerdict.Analysis.BulkSelection

open MailVerdict.Computation Model.MailActions Model.Selection
open Analysis.MailActions

/-! ## The write guards -/

section Guards

variable {a : Uuid} {S : Messages} {q : BulkActionRequest} {k : Uuid}

theorem mem_guards : k ∈ (writeGuards a S q).map Prod.fst ↔ actsOn a S q k = true := by
  rw [actsOn, lookup_isSome_iff, List.mem_map]
  constructor
  · rintro ⟨e, he, rfl⟩
    exact ⟨e.2, he⟩
  · rintro ⟨e, he⟩
    exact ⟨(k, e), he, rfl⟩

theorem guards_nodup : ((writeGuards a S q).map Prod.fst).Nodup := by
  unfold writeGuards
  cases hmembers : bulkMembers a S q with
  | none =>
    rw [List.map_map]
    have hids : (explicitIds a S q).map (Prod.fst ∘ fun id => (id,
        if (q.expectedFolderIds.lookup id).isSome then liveFolder a S id else none)) =
        explicitIds a S q := List.map_id' _
    rw [hids, explicitIds]
    exact (eraseDups_nodup q.ids).filter _
  | some members =>
    unfold bulkMembers at hmembers
    split at hmembers
    · cases hmembers
      rw [List.map_map, expandToConversations, List.map_map]
      exact S.primaryKey.sublist (List.filter_sublist.map MailRow.id)
    · cases hmembers

/-- What a request acts on: what it names, and the conversations of it where it expands. -/
theorem acts_cases (h : actsOn a S q k = true) :
    ∃ m ∈ S.rows, m.id = k ∧ m.accountId = a ∧ m.expunged = false ∧
      (k ∈ q.ids ∨ (q.expandThreads = true ∧ ∃ m' ∈ S.rows, m'.id ∈ q.ids ∧ m'.accountId = a ∧
        m'.expunged = false ∧ m'.threadId = m.threadId ∧ m'.folderId = m.folderId)) := by
  cases hmembers : bulkMembers a S q with
  | none =>
    obtain ⟨hnamed, f, hlive, -⟩ := mem_explicitIds.1 ((actsOn_named hmembers).1 h)
    obtain ⟨m, hm, hacc, hexp, -⟩ := liveFolder_eq_some.1 hlive
    obtain ⟨hin, hid⟩ := KeyedTable.find?_eq_some_iff.1 hm
    exact ⟨m, hin, hid, hacc, hexp, Or.inl hnamed⟩
  | some members =>
    obtain ⟨f, hf⟩ := (actsOn_member hmembers).1 h
    unfold bulkMembers at hmembers
    split at hmembers
    · rename_i hexpand
      cases hmembers
      obtain ⟨m, hm, hacc, hexp, hnamed, -⟩ := mem_expand.1 hf
      obtain ⟨hin, hid⟩ := KeyedTable.find?_eq_some_iff.1 hm
      refine ⟨m, hin, hid, hacc, hexp, ?_⟩
      obtain hnamed | hconversation := hnamed
      · rw [← hid]
        exact Or.inl (mem_explicitIds.1 hnamed).1
      · right
        refine ⟨(Bool.and_eq_true_iff.1 hexpand).1, ?_⟩
        unfold inConversationOf at hconversation
        rw [Bool.and_eq_true, List.any_eq_true] at hconversation
        obtain ⟨⟨m', hm', hholds⟩, -⟩ := hconversation
        simp only [Bool.and_eq_true, decide_eq_true_eq] at hholds
        obtain ⟨⟨⟨⟨hnamed, hacc'⟩, -⟩, hthread⟩, hfolder⟩ := hholds
        obtain ⟨hnamed', f', hlive, -⟩ := mem_explicitIds.1 hnamed
        obtain ⟨m'', hm'', -, hexp', -⟩ := liveFolder_eq_some.1 hlive
        obtain ⟨hin'', hid''⟩ := KeyedTable.find?_eq_some_iff.1 hm''
        obtain rfl := S.eq_of_key_eq hin'' hm' hid''
        exact ⟨m'', hm', hnamed', hacc', hexp', hthread, hfolder⟩
    · cases hmembers

theorem acts_of_named {m : MailRow} (hm : m ∈ S.rows) (hacc : m.accountId = a)
    (hexp : m.expunged = false) (hnamed : m.id ∈ q.ids) (hguards : q.expectedFolderIds = []) :
    actsOn a S q m.id = true := by
  refine MailIntents.acts_of_explicit (mem_explicitIds.2 ⟨hnamed, m.folderId, ?_, Or.inl ?_⟩)
  · exact liveFolder_eq_some.2 ⟨m, KeyedTable.find?_eq_some_iff.2 ⟨hm, rfl⟩, hacc, hexp, rfl⟩
  · rw [hguards]
    rfl

end Guards

/-! ## The rows of a list -/

def Live (M : Mailbox) (m : MailRow) : Prop := m ∈ M.messages.rows ∧ m.expunged = false

structure InGlacier (M : Mailbox) (g : GlacierRow) : Prop where
  row : g ∈ M.glacier.rows
  visible : g.visibleAt.isSome = true
  folder : M.glacierFolder g.accountId = some g.folderId

section Listed

variable {M : Mailbox} {scope : SelectionScope} {unreadOnly : Bool} {r r' : MailRow}

theorem mem_visible {g : GlacierRow} :
    g ∈ M.visible ↔ g ∈ M.glacier.rows ∧ g.visibleAt.isSome = true := List.mem_filter

theorem mem_flat (h : r ∈ M.listMessages scope unreadOnly) :
    r ∈ (M.listEntity scope.place).filter (M.listFilters scope.place unreadOnly) := by
  unfold Mailbox.listMessages at h
  split at h
  · exact List.mem_of_mem_filter h
  · exact h

theorem mem_listed (h : r ∈ M.listMessages scope unreadOnly) :
    r ∈ M.listEntity scope.place ∧ M.listFilters scope.place unreadOnly r = true :=
  List.mem_filter.1 (mem_flat h)

theorem inGlacier_of_known {g : GlacierRow} (hg : g ∈ M.glacier.rows)
    (hvisible : g.visibleAt.isSome = true) (hknown : (M.glacierAccount g.folderId).isSome = true) :
    InGlacier M g := by
  obtain ⟨a, ha⟩ := Option.isSome_iff_exists.1 hknown
  obtain rfl := M.owned g hg a ha
  exact ⟨hg, hvisible, (M.coherent _ _).1 ha⟩

theorem listed_cases (h : r ∈ M.listMessages scope unreadOnly) :
    Live M r ∨ ∃ g, InGlacier M g ∧ g.toMailRow = r := by
  obtain ⟨hin, hfilters⟩ := mem_listed h
  simp only [Mailbox.listFilters, Bool.and_eq_true, Bool.not_eq_true'] at hfilters
  obtain ⟨⟨hexp, hplace⟩, -⟩ := hfilters
  cases hscope : scope.place with
  | folder a f =>
    rw [hscope] at hin hplace
    simp only [Bool.and_eq_true, decide_eq_true_eq] at hplace
    unfold Mailbox.listEntity at hin
    dsimp only at hin
    split at hin
    · rename_i hknown
      obtain ⟨g, hg, rfl⟩ := List.mem_map.1 hin
      obtain ⟨hrow, hvisible⟩ := mem_visible.1 hg
      rw [← hplace.2] at hknown
      exact Or.inr ⟨g, inGlacier_of_known hrow hvisible hknown, rfl⟩
    · exact Or.inl ⟨hin, hexp⟩
  | unified name =>
    rw [hscope] at hin hplace
    obtain hlive | hglacier := List.mem_append.1 hin
    · exact Or.inl ⟨hlive, hexp⟩
    · obtain ⟨g, hg, rfl⟩ := List.mem_map.1 hglacier
      obtain ⟨hrow, hvisible⟩ := mem_visible.1 hg
      obtain ⟨-, hmember⟩ := List.mem_filter.1 (of_decide_eq_true hplace)
      rw [Bool.or_eq_true, decide_eq_true_eq] at hmember
      exact Or.inr ⟨g, inGlacier_of_known hrow hvisible
        (hmember.resolve_left (M.synthetic g hrow)), rfl⟩

theorem listed_folder {a f : Uuid} (hplace : scope.place = .folder a f)
    (h : r ∈ M.listMessages scope unreadOnly) : r.accountId = a ∧ r.folderId = f := by
  obtain ⟨-, hfilters⟩ := mem_listed h
  simp only [Mailbox.listFilters, hplace, Bool.and_eq_true, decide_eq_true_eq] at hfilters
  exact hfilters.1.2

theorem entity_nodup (place : ListPlace) : ((M.listEntity place).map MailRow.id).Nodup := by
  have hvisible : ((M.visible.map GlacierRow.toMailRow).map MailRow.id).Nodup := by
    rw [List.map_map]
    exact M.glacier.primaryKey.sublist (List.filter_sublist.map fun g : GlacierRow => g.id)
  cases place with
  | folder a f =>
    unfold Mailbox.listEntity
    dsimp only
    split
    · exact hvisible
    · exact M.messages.primaryKey
  | unified name =>
    rw [Mailbox.listEntity, List.map_append, List.nodup_append]
    refine ⟨M.messages.primaryKey, hvisible, fun x hx y hy => ?_⟩
    obtain ⟨m, hm, rfl⟩ := List.mem_map.1 hx
    obtain ⟨r, hr, rfl⟩ := List.mem_map.1 hy
    obtain ⟨g, hg, rfl⟩ := List.mem_map.1 hr
    exact (M.apart g (mem_visible.1 hg).1 m hm).symm

theorem listed_nodup : ((M.listMessages scope unreadOnly).map MailRow.id).Nodup := by
  have hflat : (((M.listEntity scope.place).filter
      (M.listFilters scope.place unreadOnly)).map MailRow.id).Nodup :=
    (entity_nodup scope.place).sublist (List.filter_sublist.map MailRow.id)
  unfold Mailbox.listMessages
  split
  · exact hflat.sublist (List.filter_sublist.map MailRow.id)
  · exact hflat

theorem newer_or (hid : r.id ≠ r'.id) : M.newer r r' = true ∨ M.newer r' r = true := by
  have hids : r'.id < r.id ∨ r.id < r'.id := (Nat.lt_or_gt_of_ne hid).symm
  unfold Mailbox.newer
  cases M.receivedAt r.id with
  | none =>
    cases M.receivedAt r'.id with
    | none => simpa using hids
    | some t' => exact Or.inl rfl
  | some t =>
    cases M.receivedAt r'.id with
    | none => exact Or.inr rfl
    | some t' =>
      obtain hlt | rfl | hgt := Nat.lt_trichotomy t t'
      · simp [hlt]
      · simpa using hids
      · simp [hgt]

theorem listed_thread (hthreaded : scope.threaded = true)
    (h : r ∈ M.listMessages scope unreadOnly) (h' : r' ∈ M.listMessages scope unreadOnly)
    (hsame : r.threadId = r'.threadId) : r = r' := by
  have hflat := mem_flat h
  have hflat' := mem_flat h'
  unfold Mailbox.listMessages at h h'
  rw [if_pos hthreaded, List.mem_filter] at h h'
  have hone := List.all_eq_true.1 h.2 r' hflat'
  have hother := List.all_eq_true.1 h'.2 r hflat
  by_cases hid : r.id = r'.id
  · exact List.inj_on_of_nodup_map
      ((entity_nodup scope.place).sublist (List.filter_sublist.map MailRow.id)) hflat hflat' hid
  · rw [hsame] at hone hother
    simp only [ne_eq, not_true_eq_false, decide_false, Bool.false_or, Bool.not_eq_true'] at hone hother
    obtain hnewer | hnewer := newer_or (M := M) hid
    · rw [hnewer] at hother
      cases hother
    · rw [hnewer] at hone
      cases hone

end Listed

/-! ## The ids of a request -/

def takes (scope : BulkActionScope) (m : MailRow) : Bool :=
  decide (m.folderId = scope.folderId) && decide (m.createdAt ≤ scope.snapshotAt) &&
    Mailbox.filterHolds scope.filter m && decide (m.id ∉ scope.excludeIds)

def takesGlacier (scope : BulkActionScope) (g : GlacierRow) : Bool :=
  decide (g.folderId = scope.folderId) && (g.visibleAt.any fun v => decide (v ≤ scope.snapshotAt)) &&
    Mailbox.filterHolds scope.filter g.toMailRow && decide (g.id ∉ scope.excludeIds)

/-- Every named id is that of a live message or a glacier row. -/
def Own (M : Mailbox) (ids : List Uuid) : Prop :=
  ∀ id ∈ ids, (∃ m, Live M m ∧ m.id = id) ∨ ∃ g ∈ M.glacier.rows, g.id = id

section Request

variable {M : Mailbox} {a : Uuid} {action : Action} {through : Option Time}
variable {target : BulkActionTarget} {id : Uuid}

theorem origin_not_named {ids : List Uuid} (h : Own M ids) {g : GlacierRow}
    (hg : g ∈ M.visible) {o : Uuid} (ho : g.originMessageId = some o) : o ∉ ids := by
  obtain ⟨hrow, hvisible⟩ := mem_visible.1 hg
  intro hin
  obtain ⟨m, ⟨hm, hexp⟩, rfl⟩ | ⟨g', hg', rfl⟩ := h o hin
  · exact M.departed g hrow hvisible m hm hexp ho
  · exact M.origins g hrow g' hg' ho

theorem resolveGlacierId_self {g : GlacierRow} (hg : g ∈ M.visible) :
    M.resolveGlacierId g.id = some g.id := by
  unfold Mailbox.resolveGlacierId
  cases hfind : M.visible.find? fun x =>
      decide (x.id = g.id) || decide (x.originMessageId = some g.id) with
  | none =>
    have hnot := List.find?_eq_none.1 hfind g hg
    simp at hnot
  | some x =>
    have hx := List.find?_some hfind
    rw [Bool.or_eq_true, decide_eq_true_eq, decide_eq_true_eq] at hx
    have hrow := (mem_visible.1 (List.mem_of_find?_eq_some hfind)).1
    rw [Option.map_some, hx.resolve_right (M.origins x hrow g (mem_visible.1 hg).1)]

theorem mem_glacierExplicit {ids : List Uuid} (h : Own M ids) :
    id ∈ M.resolveGlacierExplicitIds a ids ↔
      ∃ g ∈ M.visible, g.accountId = a ∧ g.id = id ∧ id ∈ ids := by
  unfold Mailbox.resolveGlacierExplicitIds
  rw [List.mem_filterMap]
  refine exists_congr fun g => and_congr_right fun hg => ?_
  constructor
  · intro hsome
    split at hsome
    · cases hsome
    · rename_i hacc
      split at hsome
      · rename_i hin
        cases hsome
        exact ⟨not_ne_iff.1 hacc, rfl, hin⟩
      · obtain ⟨ho, hin⟩ := Option.filter_eq_some_iff.1 hsome
        exact absurd (of_decide_eq_true hin) (origin_not_named h hg ho)
  · rintro ⟨hacc, rfl, hin⟩
    rw [if_neg (not_ne_iff.2 hacc), if_pos hin]

/-- The glacier rows a target stands for. -/
theorem mem_glacierIds (h : Own M (target.ids.getD [])) :
    id ∈ M.glacierIds a target ↔ ∃ g, InGlacier M g ∧ g.accountId = a ∧ g.id = id ∧
      ((∃ scope ∈ target.scope, takesGlacier scope g = true) ∨ id ∈ target.ids.getD []) := by
  unfold Mailbox.glacierIds
  cases hfolder : M.glacierFolder a with
  | none =>
    constructor
    · intro hin
      cases hin
    · rintro ⟨g, hg, rfl, -⟩
      rw [hg.folder] at hfolder
      cases hfolder
  | some f =>
    have hglacier : ∀ g ∈ M.visible, g.accountId = a → InGlacier M g := by
      rintro g hg rfl
      obtain ⟨hrow, hvisible⟩ := mem_visible.1 hg
      exact ⟨hrow, hvisible, by rw [hfolder, M.filed g hrow f hfolder]⟩
    rw [List.mem_eraseDups, List.mem_append, mem_glacierExplicit h, List.mem_flatMap]
    constructor
    · rintro (⟨scope, hscope, hin⟩ | ⟨g, hg, hacc, hid, hin⟩)
      · split at hin
        · rename_i hsame
          obtain ⟨g, hg, rfl⟩ := List.mem_map.1 hin
          obtain ⟨hrow, hholds⟩ := List.mem_filter.1 hg
          simp only [Bool.and_eq_true, decide_eq_true_eq] at hholds
          obtain ⟨⟨⟨⟨hacc, hf⟩, hv⟩, hfilter⟩, hnot⟩ := hholds
          have hvisible : g ∈ M.visible := mem_visible.2 ⟨hrow, by
            obtain ⟨v, hvis, -⟩ := (Option.any_eq_true _ _).1 hv
            rw [hvis]
            rfl⟩
          refine ⟨g, hglacier g hvisible hacc, hacc, rfl,
            Or.inl ⟨scope, Option.mem_toList.1 hscope, ?_⟩⟩
          simp only [takesGlacier, Bool.and_eq_true, decide_eq_true_eq]
          exact ⟨⟨⟨hf, hv⟩, hfilter⟩, hnot⟩
        · cases hin
      · exact ⟨g, hglacier g hg hacc, hacc, hid, Or.inr hin⟩
    · rintro ⟨g, hg, hacc, rfl, ⟨scope, hscope, htakes⟩ | hin⟩
      · left
        simp only [takesGlacier, Bool.and_eq_true, decide_eq_true_eq] at htakes
        obtain ⟨⟨⟨hf, hv⟩, hfilter⟩, hnot⟩ := htakes
        have hsame : scope.folderId = f := by
          rw [← hf]
          exact M.filed g hg.row f (by rw [hacc, hfolder])
        refine ⟨scope, Option.mem_toList.2 hscope, ?_⟩
        rw [if_pos hsame]
        refine List.mem_map_of_mem (f := fun g : GlacierRow => g.id)
          (List.mem_filter.2 ⟨hg.row, ?_⟩)
        simp only [Bool.and_eq_true, decide_eq_true_eq]
        exact ⟨⟨⟨⟨hacc, hf⟩, hv⟩, hfilter⟩, hnot⟩
      · exact Or.inr ⟨g, mem_visible.2 ⟨hg.row, hg.visible⟩, hacc, rfl, hin⟩

theorem glacierRows_eq (h : Own M (target.ids.getD [])) :
    (M.glacierIds a target).filterMap M.resolveGlacierId = M.glacierIds a target := by
  rw [List.filterMap_congr (g := some), List.filterMap_some]
  intro id hid
  obtain ⟨g, hg, -, rfl, -⟩ := (mem_glacierIds h).1 hid
  exact resolveGlacierId_self (mem_visible.2 ⟨hg.row, hg.visible⟩)

theorem live_not_glacier (h : Own M (target.ids.getD [])) {m : MailRow} (hm : Live M m) :
    m.id ∉ M.glacierIds a target := by
  intro hin
  obtain ⟨g, hg, -, hid, -⟩ := (mem_glacierIds h).1 hin
  exact M.apart g hg.row m hm.1 hid

theorem mem_scopeIds {scope : BulkActionScope} :
    id ∈ M.resolveScopeIds a scope ↔
      ∃ m, Live M m ∧ m.accountId = a ∧ m.id = id ∧ takes scope m = true := by
  unfold Mailbox.resolveScopeIds
  rw [List.mem_map]
  constructor
  · rintro ⟨m, hm, rfl⟩
    obtain ⟨hrow, hholds⟩ := List.mem_filter.1 hm
    simp only [Bool.and_eq_true, decide_eq_true_eq, Bool.not_eq_true'] at hholds
    obtain ⟨⟨⟨⟨⟨hacc, hf⟩, hexp⟩, ht⟩, hfilter⟩, hnot⟩ := hholds
    refine ⟨m, ⟨hrow, hexp⟩, hacc, rfl, ?_⟩
    simp only [takes, Bool.and_eq_true, decide_eq_true_eq]
    exact ⟨⟨⟨hf, ht⟩, hfilter⟩, hnot⟩
  · rintro ⟨m, ⟨hrow, hexp⟩, hacc, rfl, htakes⟩
    simp only [takes, Bool.and_eq_true, decide_eq_true_eq] at htakes
    obtain ⟨⟨⟨hf, ht⟩, hfilter⟩, hnot⟩ := htakes
    refine ⟨m, List.mem_filter.2 ⟨hrow, ?_⟩, rfl⟩
    simp only [Bool.and_eq_true, decide_eq_true_eq, Bool.not_eq_true']
    exact ⟨⟨⟨⟨⟨hacc, hf⟩, hexp⟩, ht⟩, hfilter⟩, hnot⟩

theorem mem_messageIds :
    id ∈ M.messageIds a action through target ↔
      (∃ scope ∈ target.scope, id ∈ M.resolveScopeIds a scope) ∨
        actsOn a M.messages (M.explicitRequest a action through target) id = true := by
  unfold Mailbox.messageIds
  rw [List.mem_append, List.mem_filter, mem_guards, decide_eq_true_eq]
  have hscoped : id ∈ target.scope.toList.flatMap (M.resolveScopeIds a) ↔
      ∃ scope ∈ target.scope, id ∈ M.resolveScopeIds a scope := by
    simp only [List.mem_flatMap, Option.mem_toList, Option.mem_def]
  rw [hscoped]
  constructor
  · rintro (hin | ⟨hacts, -⟩)
    · exact Or.inl hin
    · exact Or.inr hacts
  · rintro (hin | hacts)
    · exact Or.inl hin
    · by_cases hin : ∃ scope ∈ target.scope, id ∈ M.resolveScopeIds a scope
      · exact Or.inl hin
      · exact Or.inr ⟨hacts, hin⟩

theorem resolves_live (h : Own M (target.ids.getD [])) (haccepts : Mailbox.accepts target = true)
    {m : MailRow} (hm : Live M m) (hacc : m.accountId = a)
    (htaken : (∃ scope ∈ target.scope, takes scope m = true) ∨ m.id ∈ target.ids.getD []) :
    m.id ∈ M.resolveBulk action through (a, target) := by
  unfold Mailbox.resolveBulk
  rw [if_pos haccepts, List.mem_append, mem_messageIds]
  left
  obtain ⟨scope, hscope, htakes⟩ | hnamed := htaken
  · exact Or.inl ⟨scope, hscope, mem_scopeIds.2 ⟨m, hm, hacc, rfl, htakes⟩⟩
  · refine Or.inr (acts_of_named hm.1 hacc hm.2 ?_ rfl)
    exact List.mem_filter.2 ⟨hnamed, decide_eq_true (live_not_glacier h hm)⟩

theorem resolves_glacier (h : Own M (target.ids.getD []))
    (haccepts : Mailbox.accepts target = true) {g : GlacierRow} (hg : InGlacier M g)
    (hacc : g.accountId = a)
    (htaken : (∃ scope ∈ target.scope, takesGlacier scope g = true) ∨ g.id ∈ target.ids.getD []) :
    g.id ∈ M.resolveBulk action through (a, target) := by
  unfold Mailbox.resolveBulk
  rw [if_pos haccepts, List.mem_append, glacierRows_eq h]
  exact Or.inr ((mem_glacierIds h).2 ⟨g, hg, hacc, rfl, htaken⟩)

theorem resolved_cases (h : Own M (target.ids.getD []))
    (hin : id ∈ M.resolveBulk action through (a, target)) :
    (∃ m, Live M m ∧ m.accountId = a ∧ m.id = id ∧
      ((∃ scope ∈ target.scope, takes scope m = true) ∨ id ∈ target.ids.getD [] ∨
        (target.expandThreads = true ∧ ∃ m', Live M m' ∧ m'.id ∈ target.ids.getD [] ∧
          m'.accountId = a ∧ m'.threadId = m.threadId ∧ m'.folderId = m.folderId))) ∨
    ∃ g, InGlacier M g ∧ g.accountId = a ∧ g.id = id ∧
      ((∃ scope ∈ target.scope, takesGlacier scope g = true) ∨ id ∈ target.ids.getD []) := by
  unfold Mailbox.resolveBulk at hin
  split at hin
  · rw [List.mem_append, glacierRows_eq h, mem_glacierIds h, mem_messageIds] at hin
    obtain (⟨scope, hscope, htaken⟩ | hacts) | hglacier := hin
    · obtain ⟨m, hm, hacc, hid, htakes⟩ := mem_scopeIds.1 htaken
      exact Or.inl ⟨m, hm, hacc, hid, Or.inl ⟨scope, hscope, htakes⟩⟩
    · obtain ⟨m, hm, hid, hacc, hexp, hnamed⟩ := acts_cases hacts
      refine Or.inl ⟨m, ⟨hm, hexp⟩, hacc, hid, Or.inr ?_⟩
      obtain hnamed | ⟨hexpand, m', hm', hnamed, hacc', hexp', hthread, hfolder⟩ := hnamed
      · exact Or.inl (List.mem_of_mem_filter hnamed)
      · exact Or.inr ⟨hexpand, m', ⟨hm', hexp'⟩, List.mem_of_mem_filter hnamed, hacc', hthread,
          hfolder⟩
    · exact Or.inr hglacier
  · cases hin

theorem resolveBulk_nodup (h : Own M (target.ids.getD [])) :
    (M.resolveBulk action through (a, target)).Nodup := by
  unfold Mailbox.resolveBulk
  split
  · rw [glacierRows_eq h, List.nodup_append]
    refine ⟨?_, ?_, fun x hx y hy => ?_⟩
    · unfold Mailbox.messageIds
      rw [List.nodup_append]
      refine ⟨?_, guards_nodup.filter _, fun x hx y hy => ?_⟩
      · cases target.scope with
        | none => exact List.nodup_nil
        | some scope =>
          rw [Option.toList_some, List.flatMap_singleton]
          exact M.messages.primaryKey.sublist (List.filter_sublist.map MailRow.id)
      · rintro rfl
        exact of_decide_eq_true (List.mem_filter.1 hy).2 hx
    · unfold Mailbox.glacierIds
      split
      · exact List.nodup_nil
      · exact eraseDups_nodup _
    · rintro rfl
      obtain ⟨g, hg, -, hid, -⟩ := (mem_glacierIds h).1 hy
      obtain ⟨scope, -, htaken⟩ | hacts := mem_messageIds.1 hx
      · obtain ⟨m, hm, -, hid', -⟩ := mem_scopeIds.1 htaken
        exact M.apart g hg.row m hm.1 (hid.trans hid'.symm)
      · obtain ⟨m, hm, hid', -⟩ := acts_cases hacts
        exact M.apart g hg.row m hm (hid.trans hid'.symm)
  · exact List.nodup_nil

end Request

end MailVerdict.Analysis.BulkSelection
