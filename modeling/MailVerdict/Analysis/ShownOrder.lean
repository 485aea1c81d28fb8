import MailVerdict.Analysis.RestoredRows

/-!
# The order of the list shown

The rows kept are in the order of the server's list (`sorted_kept`), and a row brought back is put
where it belongs among them, so the list shown is in order (`sorted_projectRows`). It has no message
twice. A conversation it can have twice: a row brought back is compared with the rows kept, not with
the others brought back (`projectRows_wellFormed_iff`). And the window ends for it at the last row
kept, which is above the last row loaded where that one is hidden (`window_respected_iff`).
-/

namespace MailVerdict.Analysis.ShownOrder

open Model.MailActions Model.MailIntents Model.RowProjection
open Analysis.RowOverlay Analysis.RestoredRows

/-- The row snapshots of the messages of intents, each of its message and its conversation.
SOURCE: ui/src/hooks/use-mail-intents.ts:131-143 -/
structure Snapshots where
  rowOf : IntentId → IntentMessage → Option Row
  ofMessage : ∀ i m row, rowOf i m = some row → row.id = m.id
  ofThread : ∀ i m row, rowOf i m = some row → row.threadId = m.threadId

/-! ## The rows kept -/

section Kept

variable {rows : List Row} {intents : List MailIntent} {list : ListProjection}

structure SamePlace (a b : Row) : Prop where
  id : a.id = b.id
  threadId : a.threadId = b.threadId
  key : listKey a = listKey b

theorem SamePlace.refl (row : Row) : SamePlace row row := ⟨rfl, rfl, rfl⟩

theorem samePlace_flagAll (row : Row) (is : List MailIntent) : SamePlace (flagAll row is) row where
  id := flagAll_id row is
  threadId := flagAll_keeps flagOverride_threadId row is
  key := flagAll_listKey row is

theorem samePlace_bare (row : Row) : SamePlace (bare row) row := ⟨rfl, rfl, rfl⟩

theorem SamePlace.trans {a b c : Row} (hab : SamePlace a b) (hbc : SamePlace b c) : SamePlace a c :=
  ⟨hab.id.trans hbc.id, hab.threadId.trans hbc.threadId, hab.key.trans hbc.key⟩

theorem SamePlace.symm {a b : Row} (h : SamePlace a b) : SamePlace b a :=
  ⟨h.id.symm, h.threadId.symm, h.key.symm⟩

theorem samePlace_projectRow {applying failed : List MailIntent} {deltas : List (Uuid × Uuid × ℤ)}
    {row next : Row} (h : projectRow applying failed list deltas row = some next) :
    SamePlace next row := by
  obtain ⟨is, hflags⟩ := bare_of_projectRow h
  have hnext : SamePlace (bare next) (bare row) := hflags ▸ samePlace_flagAll (bare row) is
  exact (samePlace_bare next).symm.trans (hnext.trans (samePlace_bare row))

theorem kept_pairwise {r : Row → Row → Prop} (h : rows.Pairwise r)
    (hplace : ∀ a b a' b', SamePlace a' a → SamePlace b' b → r a b → r a' b') :
    (kept rows intents list).Pairwise r := by
  unfold kept
  split
  · exact h
  · refine List.Pairwise.filterMap _ (fun a b hab a' ha b' hb => ?_) h
    exact hplace a b a' b' (samePlace_projectRow ha) (samePlace_projectRow hb) hab

theorem exists_of_mem_kept {row : Row} (h : row ∈ kept rows intents list) :
    ∃ loaded ∈ rows, SamePlace row loaded := by
  unfold kept at h
  split at h
  · exact ⟨row, h, SamePlace.refl row⟩
  · obtain ⟨loaded, hloaded, hrow⟩ := List.mem_filterMap.1 h
    exact ⟨loaded, hloaded, samePlace_projectRow hrow⟩

theorem sorted_kept (h : Sorted rows) : Sorted (kept rows intents list) := by
  refine kept_pairwise h fun a b a' b' ha hb hab => ?_
  rw [ha.key, hb.key]
  exact hab

end Kept

/-! ## The rows brought back -/

section Brought

variable (S : Snapshots) {rows : List Row} {intents : List MailIntent} {list : ListProjection}

theorem exists_of_broughtRow {rowOf : IntentId → IntentMessage → Option Row} {scope : Finset Uuid}
    {i : MailIntent} {k : Uuid} {row : Row} (h : broughtRow rowOf scope i k = some row) :
    ∃ m ∈ i.messages, m.id = k ∧ ∃ held, rowOf i.id m = some held ∧ SamePlace row held := by
  unfold broughtRow at h
  split at h
  · cases h
  · obtain ⟨held, hlast, rfl⟩ := Option.map_eq_some_iff.1 h
    obtain ⟨m, hm, hheld⟩ := List.mem_filterMap.1 (List.mem_of_getLast? hlast)
    obtain ⟨hmem, hid⟩ := List.mem_filter.1 hm
    exact ⟨m, hmem, of_decide_eq_true hid, held, hheld, rfl, rfl, rfl⟩

theorem of_mem_restorable {k : Uuid} {row : Row} (h : (k, row) ∈ restorable S.rowOf rows intents list) :
    row.id = k ∧ (list.threaded = true → row.threadId.isSome = true →
      row.threadId ∉ (kept rows intents list).map Row.threadId) := by
  obtain ⟨_, scope, _, hrow⟩ := mem_restorable.1 h
  rw [broughtBack_eq] at hrow
  obtain ⟨snapshot, hsnapshot, hrow⟩ := Option.bind_eq_some_iff.1 hrow
  obtain ⟨_, hrow⟩ := Option.ite_none_left_eq_some.1 hrow
  obtain ⟨i, _, hbrought⟩ := List.mem_filterMap.1 (List.mem_of_getLast? hsnapshot)
  obtain ⟨m, _, rfl, held, hheld, hplace⟩ := exists_of_broughtRow hbrought
  have hsame : SamePlace row held := Option.some.inj hrow ▸ (samePlace_flagAll _ _).trans hplace
  simp only [usable, unlessShown_eq] at hheld
  obtain ⟨hunshown, hheld⟩ := Option.ite_none_left_eq_some.1 hheld
  refine ⟨hsame.id.trans (S.ofMessage _ _ _ hheld), fun hthreaded hsome hshown => hunshown ?_⟩
  rw [hsame.threadId, S.ofThread _ _ _ hheld] at hsome hshown
  simp only [hthreaded, hsome, hshown, decide_true, Bool.true_and]

theorem restorable_id {e : Uuid × Row} (h : e ∈ restorable S.rowOf rows intents list) :
    e.2.id = e.1 :=
  (of_mem_restorable S h).1

theorem map_id_broughtIn : ((broughtIn S.rowOf rows intents list).map Prod.snd).map Row.id =
    (broughtIn S.rowOf rows intents list).map Prod.fst := by
  rw [List.map_map]
  exact List.map_congr_left fun e he => restorable_id S (List.mem_filter.1 he).1

theorem nodup_broughtIn : ((broughtIn S.rowOf rows intents list).map Prod.fst).Nodup := by
  have htidy : Tidy _ (restorable S.rowOf rows intents list) := tidy_restorable
  exact htidy.nodup.sublist (List.filter_sublist.map _)

theorem id_ne_of_broughtIn {row shown : Row}
    (hrow : row ∈ (broughtIn S.rowOf rows intents list).map Prod.snd)
    (hshown : shown ∈ kept rows intents list) : shown.id ≠ row.id := by
  obtain ⟨e, he, rfl⟩ := List.mem_map.1 hrow
  have hentry := (List.mem_filter.1 he).1
  have htidy : Tidy _ (restorable S.rowOf rows intents list) := tidy_restorable
  rw [restorable_id S hentry]
  rintro hid
  exact htidy.absent e hentry (hid ▸ List.mem_map_of_mem hshown)

theorem sorted_projectRows (h : Sorted rows) : Sorted (projectRows S.rowOf rows intents list) := by
  rw [projectRows_eq]
  refine sorted_foldl_insertRow (sorted_kept h) ?_ fun row hrow shown => id_ne_of_broughtIn S hrow
  rw [map_id_broughtIn]
  exact nodup_broughtIn S

end Brought

/-! ## A well-formed list -/

theorem insertRow_perm (row : Row) (rows : List Row) : (insertRow row rows).Perm (row :: rows) := by
  induction rows with
  | nil => exact List.Perm.refl _
  | cons existing rest ih =>
    rw [insertRow]
    split
    · exact List.Perm.refl _
    · exact (ih.cons existing).trans (List.Perm.swap row existing rest)

theorem foldl_insertRow_perm (restored out : List Row) :
    (restored.foldl (fun shown row => insertRow row shown) out).Perm (restored ++ out) := by
  induction restored generalizing out with
  | nil => exact List.Perm.refl _
  | cons row restored ih =>
    have hrest := (ih (insertRow row out)).trans ((insertRow_perm row out).append_left restored)
    exact hrest.trans List.perm_middle

/-- Two rows that are not of one conversation; a row without one stands for itself. -/
def Apart (a b : Row) : Prop := a.threadId = b.threadId → a.threadId = none

instance (a b : Row) : Decidable (Apart a b) :=
  inferInstanceAs (Decidable (a.threadId = b.threadId → a.threadId = none))

theorem Apart.symm {a b : Row} (h : Apart a b) : Apart b a :=
  fun hsame => hsame.trans (h hsame.symm)

/-- In the server's order, no message twice, and by conversation no conversation twice. -/
structure WellFormed (threaded : Bool) (rows : List Row) : Prop where
  sorted : Sorted rows
  distinct : (rows.map Row.id).Nodup
  apart : threaded = true → rows.Pairwise Apart

section WellFormed

variable (S : Snapshots) {rows : List Row} {intents : List MailIntent} {list : ListProjection}

theorem distinct_projectRows (h : (rows.map Row.id).Nodup) :
    ((projectRows S.rowOf rows intents list).map Row.id).Nodup := by
  rw [projectRows_eq, ((foldl_insertRow_perm _ _).map Row.id).nodup_iff, List.map_append,
    map_id_broughtIn, List.nodup_append]
  have hkept : (kept rows intents list).Pairwise fun a b => a.id ≠ b.id := by
    refine kept_pairwise (List.pairwise_map.1 h) fun a b a' b' ha hb hab => ?_
    rw [ha.id, hb.id]
    exact hab
  refine ⟨nodup_broughtIn S, List.pairwise_map.2 hkept, fun k hk id hid => ?_⟩
  rintro rfl
  have htidy : Tidy _ (restorable S.rowOf rows intents list) := tidy_restorable
  obtain ⟨e, he, rfl⟩ := List.mem_map.1 hk
  exact htidy.absent e (List.mem_filter.1 he).1 hid

theorem apart_projectRows_iff (hthreaded : list.threaded = true) (h : rows.Pairwise Apart) :
    (projectRows S.rowOf rows intents list).Pairwise Apart ↔
      (broughtIn S.rowOf rows intents list).Pairwise fun e e' => Apart e.2 e'.2 := by
  rw [projectRows_eq, (foldl_insertRow_perm _ _).pairwise_iff Apart.symm, List.pairwise_append,
    List.pairwise_map]
  have hkept : (kept rows intents list).Pairwise Apart := by
    refine kept_pairwise h fun a b a' b' ha hb hab => ?_
    rw [Apart, ha.threadId, hb.threadId]
    exact hab
  have hcross : ∀ row ∈ (broughtIn S.rowOf rows intents list).map Prod.snd,
      ∀ shown ∈ kept rows intents list, Apart row shown := by
    intro row hrow shown hshown hsame
    obtain ⟨e, he, rfl⟩ := List.mem_map.1 hrow
    by_contra hsome
    have hnot := (of_mem_restorable S (List.mem_filter.1 he).1).2 hthreaded
      (Option.isSome_iff_ne_none.2 hsome)
    exact hnot (hsame ▸ List.mem_map_of_mem hshown)
  exact ⟨fun hall => hall.1, fun hbrought => ⟨hbrought, hkept, hcross⟩⟩

/-- **A well-formed list stays well formed** exactly when, in a list by conversation, no two
messages brought back into the window are of one conversation. -/
theorem projectRows_wellFormed_iff (S : Snapshots) {rows : List Row} (intents : List MailIntent)
    (list : ListProjection) (h : WellFormed list.threaded rows) :
    WellFormed list.threaded (projectRows S.rowOf rows intents list) ↔
      (list.threaded = true →
        (broughtIn S.rowOf rows intents list).Pairwise fun e e' => Apart e.2 e'.2) := by
  constructor
  · intro hshown hthreaded
    exact (apart_projectRows_iff S hthreaded (h.apart hthreaded)).1 (hshown.apart hthreaded)
  · intro hbrought
    refine ⟨sorted_projectRows S h.sorted, distinct_projectRows S h.distinct, fun hthreaded => ?_⟩
    exact (apart_projectRows_iff S hthreaded (h.apart hthreaded)).2 (hbrought hthreaded)

end WellFormed

/-! ### Two messages of a conversation taken back -/

def conversationSnapshots : Snapshots where
  rowOf _ m :=
    if m.threadId = some 7 then
      some ⟨m.id, 5, some 7, true, false, some m.id, none, none, none⟩
    else none
  ofMessage := by
    intro i m row h
    obtain ⟨_, h⟩ := Option.ite_none_right_eq_some.1 h
    rw [← Option.some.inj h]
  ofThread := by
    intro i m row h
    obtain ⟨hthread, h⟩ := Option.ite_none_right_eq_some.1 h
    rw [← Option.some.inj h, hthread]

def movedBack (ids : List Uuid) : MailIntent where
  id := 1
  accountId := 1
  action := .move
  targetFolderId := some 5
  messages := ids.map fun id => ⟨id, some 9, true, false, some 7, none⟩
  bulk := true
  createdAt := 30
  state := .pending
  attempts := 0
  notBefore := 30
  reverses := some 0
  generation := 0
  updatedAt := 30

def otherRow : Row := ⟨20, 5, some 8, true, false, some 5, none, none, none⟩

theorem wellFormed_otherRow : WellFormed true [otherRow] :=
  ⟨List.pairwise_singleton _ _, by decide, fun _ => List.pairwise_singleton _ _⟩

theorem projectRows_wellFormed_one :
    WellFormed true (projectRows conversationSnapshots.rowOf [otherRow] [movedBack [10]]
      ⟨25, some {5}, true, false⟩) :=
  (projectRows_wellFormed_iff conversationSnapshots [movedBack [10]] ⟨25, some {5}, true, false⟩
    wellFormed_otherRow).2 fun _ => by decide +kernel

/-- Two messages of one conversation come back as two rows of a list by conversation. -/
theorem conversation_twice : ¬∀ (S : Snapshots) (rows : List Row) (intents : List MailIntent)
    (list : ListProjection), WellFormed list.threaded rows →
      WellFormed list.threaded (projectRows S.rowOf rows intents list) := by
  intro h
  have hshown := h conversationSnapshots [otherRow] [movedBack [10, 11]] ⟨25, some {5}, true, false⟩
    wellFormed_otherRow
  exact absurd (hshown.apart rfl) (by decide +kernel)

/-! ## The window -/

/-- A row is in a list, below the rows above it and above those below. -/
def InPlace (row : Row) (rows : List Row) : Prop :=
  ∃ above below, rows = above ++ row :: below ∧ (∀ x ∈ above, sitsAbove x row = true) ∧
    ∀ x ∈ below, sitsAbove row x = true

theorem inPlace_of_mem {row : Row} {rows : List Row} (h : Sorted rows) (hmem : row ∈ rows) :
    InPlace row rows := by
  obtain ⟨above, below, rfl⟩ := List.append_of_mem hmem
  obtain ⟨_, hrow, habove⟩ := List.pairwise_append.1 h
  refine ⟨above, below, rfl, fun x hx => ?_, fun x hx => ?_⟩
  · exact (sitsAbove_iff x row).2 (habove x hx row List.mem_cons_self)
  · exact (sitsAbove_iff row x).2 ((List.pairwise_cons.1 hrow).1 x hx)

section Window

variable (S : Snapshots) (rows : List Row) (intents : List MailIntent) (list : ListProjection)

/-- A row that can be brought back is shown in its place if it sits at the last row loaded or
above, and is left out if it sits below. -/
def WindowRespected : Prop :=
  ∀ e ∈ restorable S.rowOf rows intents list, ∀ last ∈ rows.getLast?,
    (sitsAbove last e.2 = false → InPlace e.2 (projectRows S.rowOf rows intents list)) ∧
      (sitsAbove last e.2 = true → e.2 ∉ projectRows S.rowOf rows intents list)

/-- No row that can be brought back sits between the last row kept and the last row loaded, and
none below the last row loaded where no row is kept. -/
def NoneInGap : Prop :=
  ∀ e ∈ restorable S.rowOf rows intents list, ∀ last ∈ rows.getLast?,
    (∀ l ∈ (kept rows intents list).getLast?, sitsAbove e.2 l = true ∨ sitsAbove last e.2 = true) ∧
      (kept rows intents list = [] → sitsAbove last e.2 = false)

variable {rows} {intents} {list}

theorem mem_projectRows_iff {e : Uuid × Row} (he : e ∈ restorable S.rowOf rows intents list) :
    e.2 ∈ projectRows S.rowOf rows intents list ↔ inWindow rows intents list e.2 = true := by
  have htidy : Tidy _ (restorable S.rowOf rows intents list) := tidy_restorable
  rw [mem_projectRows]
  constructor
  · rintro (hkept | ⟨k, hk⟩)
    · have hid := List.mem_map_of_mem (f := Row.id) hkept
      rw [restorable_id S he] at hid
      exact absurd hid (htidy.absent e he)
    · exact (List.mem_filter.1 hk).2
  · exact fun hwindow => .inr ⟨e.1, List.mem_filter.2 ⟨he, hwindow⟩⟩

theorem last_le_kept (h : Sorted rows) {last l : Row} (hlast : rows.getLast? = some last)
    (hl : l ∈ kept rows intents list) : listKey last ≤ listKey l := by
  obtain ⟨loaded, hloaded, hplace⟩ := exists_of_mem_kept hl
  obtain ⟨init, rfl⟩ := List.getLast?_eq_some_iff.1 hlast
  rw [hplace.key]
  obtain hloaded | hloaded := List.mem_append.1 hloaded
  · exact ((List.pairwise_append.1 h).2.2 loaded hloaded last (List.mem_singleton_self last)).le
  · rw [List.mem_singleton.1 hloaded]

/-- **Rows brought back respect the window** exactly when none sits between the last row kept and
the last row loaded. -/
theorem window_respected_iff (S : Snapshots) {rows : List Row} (intents : List MailIntent)
    {list : ListProjection} (h : Sorted rows) (hmore : list.hasMore = true) :
    WindowRespected S rows intents list ↔ NoneInGap S rows intents list := by
  refine forall₂_congr fun e he => forall₂_congr fun last hlast => ?_
  have hplace : InPlace e.2 (projectRows S.rowOf rows intents list) ↔
      e.2 ∈ projectRows S.rowOf rows intents list := by
    refine ⟨?_, inPlace_of_mem (sorted_projectRows S h)⟩
    rintro ⟨above, below, heq, _, _⟩
    rw [heq]
    simp
  rw [hplace, mem_projectRows_iff S he, inWindow, hmore, Bool.true_and]
  rw [← List.getLast?_eq_none_iff]
  cases hkept : (kept rows intents list).getLast? with
  | none => simp
  | some l =>
    have hle : listKey last ≤ listKey l := last_le_kept h hlast (List.mem_of_getLast? hkept)
    have hbelow : sitsAbove last e.2 = true → sitsAbove e.2 l = false := by
      intro hlow
      have hlt := (sitsAbove_iff last e.2).1 hlow
      rw [← Bool.not_eq_true, sitsAbove_iff]
      exact (hlt.trans_le hle).asymm
    cases hlow : sitsAbove last e.2 with
    | true => simp [hbelow hlow]
    | false => simp

end Window

/-! ### A gap at the end of the window -/

def archivedLast : MailIntent where
  id := 2
  accountId := 1
  action := .archive
  messages := [⟨30, some 5, true, false, none, none⟩]
  bulk := false
  createdAt := 31
  state := .pending
  attempts := 0
  notBefore := 31
  generation := 0
  updatedAt := 31

def twoLoaded : List Row :=
  [⟨40, 5, none, true, false, some 40, none, none, none⟩,
    ⟨30, 5, none, true, false, some 3, none, none, none⟩]

theorem sorted_twoLoaded : Sorted twoLoaded :=
  List.pairwise_pair.2 ((sitsAbove_iff _ _).1 rfl)

theorem window_respected_two :
    WindowRespected conversationSnapshots twoLoaded [movedBack [10]] ⟨25, some {5}, false, true⟩ :=
  (window_respected_iff conversationSnapshots [movedBack [10]] sorted_twoLoaded rfl).2 (by
    unfold NoneInGap
    decide +kernel)

/-- With the last row loaded hidden, a row brought back above it is not shown. -/
theorem row_lost_in_gap : ¬∀ (S : Snapshots) (rows : List Row) (intents : List MailIntent)
    (list : ListProjection), Sorted rows → list.hasMore = true →
      WindowRespected S rows intents list := by
  intro h
  have hrow : ((10, ⟨10, 5, some 7, true, false, some 10, none, none, none⟩) : Uuid × Row) ∈
      restorable conversationSnapshots.rowOf twoLoaded [movedBack [10], archivedLast]
        ⟨25, some {5}, false, true⟩ := by
    decide +kernel
  obtain ⟨hshown, _⟩ := h conversationSnapshots twoLoaded [movedBack [10], archivedLast]
    ⟨25, some {5}, false, true⟩ sorted_twoLoaded rfl _ hrow _ rfl
  obtain ⟨above, below, heq, _, _⟩ := hshown rfl
  have hnot : (⟨10, 5, some 7, true, false, some 10, none, none, none⟩ : Row) ∉
      projectRows conversationSnapshots.rowOf twoLoaded [movedBack [10], archivedLast]
        ⟨25, some {5}, false, true⟩ := by
    decide +kernel
  apply hnot
  rw [heq]
  simp

end MailVerdict.Analysis.ShownOrder
