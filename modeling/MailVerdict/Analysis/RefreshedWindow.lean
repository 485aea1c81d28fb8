import MailVerdict.Computation.KeysetPaging
import MailVerdict.Model.ListWindow

/-!
# A refreshed window

A refresh reads the newest rows of a list, all of them or as many as it asked for
(`Refresh.fresh`). What it asks for is a prefix, so a row it did not reach is one below the last
row read. The rows read and those preserved are in order (`newestFirst_effective`), and from there
each case of the merge is: it reached the old last row and cuts there (`cut_keeps`), or it did not
and the rows loaded below it follow (`append_keeps`).
-/

namespace MailVerdict.Analysis.RefreshedWindow

open Computation.KeysetPaging Computation.SqlQuery
open Model.ListWindow

variable {T : Type}

/-! ## The order of a window -/

/-- Where a row is in a list; one without a time is above all others. -/
def place (row : WindowRow T) : WithTop ℕ ×ₗ ℕ := toLex (nullHigh row.receivedAt, row.id)

theorem sitsAbove_iff (a b : WindowRow T) : sitsAbove a b = true ↔ place b < place a := by
  unfold sitsAbove place
  rw [Prod.Lex.toLex_lt_toLex]
  cases ha : a.receivedAt with
  | none =>
    cases hb : b.receivedAt with
    | none => simp
    | some y => simp
  | some x =>
    cases hb : b.receivedAt with
    | none => simp
    | some y =>
      by_cases hxy : x = y
      · simp [hxy]
      · simp [hxy, Ne.symm hxy]

theorem not_sitsAbove_iff (a b : WindowRow T) : sitsAbove a b = false ↔ place a ≤ place b := by
  rw [← Bool.not_eq_true, sitsAbove_iff, not_lt]

theorem id_eq_of_place {a b : WindowRow T} (h : place a = place b) : a.id = b.id :=
  congrArg (fun k : WithTop ℕ ×ₗ ℕ => (ofLex k).2) h

def NewestFirst (rows : List (WindowRow T)) : Prop := rows.Pairwise fun a b => sitsAbove a b = true

instance (rows : List (WindowRow T)) : Decidable (NewestFirst rows) :=
  inferInstanceAs (Decidable (rows.Pairwise fun a b => sitsAbove a b = true))

variable {rows : List (WindowRow T)}

theorem NewestFirst.last_le (h : NewestFirst rows) {last row : WindowRow T}
    (hlast : rows.getLast? = some last) (hrow : row ∈ rows) : place last ≤ place row := by
  obtain ⟨init, rfl⟩ := List.getLast?_eq_some_iff.1 hlast
  obtain hrow | hrow := List.mem_append.1 hrow
  · have habove := (List.pairwise_append.1 h).2.2 row hrow last (List.mem_singleton_self last)
    exact ((sitsAbove_iff row last).1 habove).le
  · rw [List.mem_singleton.1 hrow]

theorem getLast?_filter {p : WindowRow T → Bool} {last : WindowRow T}
    (hlast : rows.getLast? = some last) (hp : p last = true) :
    (rows.filter p).getLast? = some last := by
  obtain ⟨init, rfl⟩ := List.getLast?_eq_some_iff.1 hlast
  rw [List.filter_append, List.filter_cons, if_pos hp, List.filter_nil, List.getLast?_concat]

/-! ## A refresh -/

/-- A list of the server, how far it was read, and what the client holds of it. -/
structure Refresh (T : Type) where
  server : List (WindowRow T)
  reach : ℕ
  current : List (WindowRow T)
  currentHasMore : Bool
  preserveIds : Option (List Uuid)

namespace Refresh

variable (w : Refresh T)

def fresh : List (WindowRow T) := w.server.take w.reach

def freshHasMore : Bool := decide (w.reach < w.server.length)

def merged : Option (MergedWindow T) :=
  mergeRefreshedWindow w.current w.fresh w.freshHasMore w.currentHasMore w.preserveIds

def effective : List (WindowRow T) := effectiveFresh w.current w.fresh w.preserveIds

/-- Both lists are newest first with distinct ids, and the window knows of rows below it. -/
structure WellFormed : Prop where
  server : NewestFirst w.server
  serverIds : (ids w.server).Nodup
  current : NewestFirst w.current
  currentIds : (ids w.current).Nodup
  more : ∀ oldLast ∈ w.current.getLast?,
    (∃ row ∈ w.server, sitsAbove oldLast row = true) → w.currentHasMore = true

def KeepsUnreached (m : MergedWindow T) : Prop :=
  ∀ row ∈ w.current, row.id ∉ ids w.fresh → (∀ kept ∈ w.preserveIds, row.id ∉ kept) →
    (∃ last ∈ w.fresh.getLast?, sitsAbove last row = true) →
    (∃ oldLast ∈ w.current.getLast?, sitsAbove oldLast row = false) → row ∈ m.rows

/-- The rows read down to the old last row are shown, in order, and the window knows of rows
below it. -/
structure ShowsFresh (m : MergedWindow T) : Prop where
  fresh : ∀ oldLast ∈ w.current.getLast?, ∀ row ∈ w.fresh,
    sitsAbove oldLast row = false → row ∈ m.rows
  newestFirst : NewestFirst m.rows
  nodup : (ids m.rows).Nodup
  more : ∀ last ∈ m.rows.getLast?, (∃ row ∈ w.server, sitsAbove last row = true) →
    m.hasMore = true

end Refresh

/-! ## What is merged -/

section Effective

variable {w : Refresh T} (hw : w.WellFormed)

theorem mem_preserved {current fresh : List (WindowRow T)} {preserveIds : Option (List Uuid)}
    {row : WindowRow T} : row ∈ preserved current fresh preserveIds ↔
      row ∈ current ∧ row.id ∉ ids fresh ∧ ∃ kept, preserveIds = some kept ∧ row.id ∈ kept := by
  cases preserveIds with
  | none => simp [preserved]
  | some kept =>
    rw [preserved, List.mem_filter]
    simp only [Bool.and_eq_true, decide_eq_true_eq, Option.some.injEq, exists_eq_left']
    rw [and_comm (a := row.id ∈ kept)]

theorem mem_effective {row : WindowRow T} : row ∈ w.effective ↔
    row ∈ w.fresh ∨ row ∈ preserved w.current w.fresh w.preserveIds := by
  unfold Refresh.effective effectiveFresh
  split
  · next hnone =>
    rw [List.isEmpty_iff.1 hnone]
    simp
  · rw [List.mem_insertionSort, List.mem_append]

include hw

theorem newestFirst_fresh : NewestFirst w.fresh := hw.server.sublist (List.take_sublist _ _)

theorem nodup_fresh : (ids w.fresh).Nodup :=
  hw.serverIds.sublist ((List.take_sublist _ _).map WindowRow.id)

theorem nodup_both : (ids (w.fresh ++ preserved w.current w.fresh w.preserveIds)).Nodup := by
  rw [ids, List.map_append, List.nodup_append]
  refine ⟨nodup_fresh hw, ?_, ?_⟩
  · cases hpreserve : w.preserveIds with
    | none => exact List.nodup_nil
    | some kept => exact hw.currentIds.sublist (List.filter_sublist.map WindowRow.id)
  · rintro i hi j hj rfl
    obtain ⟨row, hrow, rfl⟩ := List.mem_map.1 hj
    exact (mem_preserved.1 hrow).2.1 hi

theorem nodup_effective : (ids w.effective).Nodup := by
  unfold Refresh.effective effectiveFresh
  split
  · exact nodup_fresh hw
  · exact ((List.perm_insertionSort _ _).map WindowRow.id).nodup_iff.2 (nodup_both hw)

theorem newestFirst_effective : NewestFirst w.effective := by
  unfold Refresh.effective effectiveFresh
  split
  · exact newestFirst_fresh hw
  · have hplaces : ((w.fresh ++ preserved w.current w.fresh w.preserveIds).map
        fun row => OrderDual.toDual (place row)).Nodup := by
      refine (List.Nodup.of_map WindowRow.id (nodup_both hw)).map_on fun a ha b hb h => ?_
      exact List.inj_on_of_nodup_map (nodup_both hw) ha hb (id_eq_of_place h)
    have horder : InOrder (fun row : WindowRow T => OrderDual.toDual (place row))
        ((w.fresh ++ preserved w.current w.fresh w.preserveIds).insertionSort
          fun a b => sitsAbove b a = false) :=
      inOrder_insertionSort (fun a b => not_sitsAbove_iff b a) hplaces
    exact horder.imp fun {a b} hlt => (sitsAbove_iff a b).2 hlt

end Effective

/-! ## The two cases -/

section Cases

variable {w : Refresh T} (hw : w.WellFormed) {oldLast : WindowRow T}
variable (hold : w.current.getLast? = some oldLast)

include hw hold

theorem cut_keeps :
    let rows := w.effective.filter fun row => decide (row.id = oldLast.id) || sitsAbove row oldLast
    w.ShowsFresh ⟨rows, w.freshHasMore || decide (rows.length < w.effective.length)⟩ := by
  intro rows
  have hnewest : NewestFirst rows := (newestFirst_effective hw).filter _
  refine ⟨fun oldLast' hold' row hrow habove => ?_, hnewest, ?_, fun last hlast hbelow => ?_⟩
  · obtain rfl : oldLast = oldLast' := Option.some.inj (hold.symm.trans hold')
    refine List.mem_filter.2 ⟨mem_effective.2 (Or.inl hrow), ?_⟩
    rw [Bool.or_eq_true, decide_eq_true_eq, sitsAbove_iff]
    obtain hlt | heq := ((not_sitsAbove_iff oldLast row).1 habove).lt_or_eq
    · exact Or.inr hlt
    · exact Or.inl (id_eq_of_place heq).symm
  · exact (nodup_effective hw).sublist (List.filter_sublist.map WindowRow.id)
  · rw [Bool.or_eq_true, decide_eq_true_eq]
    by_cases hall : w.reach < w.server.length
    · exact Or.inl (decide_eq_true hall)
    · -- the whole list was read, so the row below was cut off
      obtain ⟨row, hrow, habove⟩ := hbelow
      have hread : row ∈ w.effective := by
        refine mem_effective.2 (Or.inl ?_)
        rw [Refresh.fresh, List.take_of_length_le (Nat.le_of_not_lt hall)]
        exact hrow
      refine Or.inr (List.length_filter_lt_length_iff_exists.2 ⟨row, hread, fun hkept => ?_⟩)
      have hle := hnewest.last_le hlast (List.mem_filter.2 ⟨hread, hkept⟩)
      exact absurd ((sitsAbove_iff last row).1 habove) (not_lt.2 hle)

variable {last : WindowRow T} (hlast : w.effective.getLast? = some last)
variable (hshort : sitsAbove last oldLast = true)

include hlast hshort

/-- The old rows below the refreshed ones stay in the window. -/
theorem append_keeps
    (hplace : ∀ row ∈ w.fresh, row.id = oldLast.id → row.receivedAt = oldLast.receivedAt) :
    w.ShowsFresh ⟨w.effective ++ w.current.filter fun row =>
      decide (row.id ∉ ids w.effective) && sitsAbove last row, w.currentHasMore⟩ := by
  have hnewest := newestFirst_effective hw
  have hkept : ∀ row ∈ w.current.filter fun row =>
      decide (row.id ∉ ids w.effective) && sitsAbove last row,
      row.id ∉ ids w.effective ∧ sitsAbove last row = true := fun row hrow => by
    have h := (List.mem_filter.1 hrow).2
    rwa [Bool.and_eq_true, decide_eq_true_eq] at h
  refine ⟨fun _ _ row hrow _ => List.mem_append_left _ (mem_effective.2 (Or.inl hrow)), ?_, ?_,
    fun m hm hbelow => ?_⟩
  · refine List.pairwise_append.2 ⟨hnewest, hw.current.filter _, fun a ha b hb => ?_⟩
    rw [sitsAbove_iff]
    exact ((sitsAbove_iff last b).1 (hkept b hb).2).trans_le (hnewest.last_le hlast ha)
  · rw [ids, List.map_append, List.nodup_append]
    refine ⟨nodup_effective hw, hw.currentIds.sublist (List.filter_sublist.map WindowRow.id), ?_⟩
    rintro i hi j hj rfl
    obtain ⟨row, hrow, rfl⟩ := List.mem_map.1 hj
    exact (hkept row hrow).1 hi
  · -- the old last row is not among those read, so it is kept and last
    have hunread : oldLast.id ∉ ids w.effective := fun hmem => by
      obtain ⟨row, hrow, hid⟩ := List.mem_map.1 hmem
      have hsame : place row = place oldLast := by
        obtain hread | hpreserved := mem_effective.1 hrow
        · rw [place, place, hplace row hread hid, hid]
        · have hcurrent := (mem_preserved.1 hpreserved).1
          rw [List.inj_on_of_nodup_map hw.currentIds hcurrent (List.mem_of_getLast? hold) hid]
      have hle := hnewest.last_le hlast hrow
      rw [hsame] at hle
      exact absurd ((sitsAbove_iff last oldLast).1 hshort) (not_lt.2 hle)
    have hend := getLast?_filter (p := fun row =>
      decide (row.id ∉ ids w.effective) && sitsAbove last row) hold (by
        rw [Bool.and_eq_true, decide_eq_true_eq]
        exact ⟨hunread, hshort⟩)
    rw [List.getLast?_append, hend, Option.some_or] at hm
    obtain rfl : oldLast = m := Option.some.inj hm
    exact hw.more oldLast hold hbelow

end Cases

/-! ## The merge -/

def PreservedReached (w : Refresh T) : Prop :=
  ∀ row ∈ preserved w.current w.fresh w.preserveIds, ∀ last ∈ w.fresh.getLast?,
    sitsAbove last row = false

instance (w : Refresh T) : Decidable (PreservedReached w) :=
  inferInstanceAs (Decidable (∀ row ∈ preserved w.current w.fresh w.preserveIds,
    ∀ last ∈ w.fresh.getLast?, sitsAbove last row = false))

theorem last_le_effective {w : Refresh T} (hw : w.WellFormed) (hpreserved : PreservedReached w)
    {last row : WindowRow T} (hlast : w.fresh.getLast? = some last) (hrow : row ∈ w.effective) :
    place last ≤ place row := by
  obtain hread | hkept := mem_effective.1 hrow
  · exact (newestFirst_fresh hw).last_le hlast hread
  · exact (not_sitsAbove_iff last row).1 (hpreserved row hkept last hlast)

section Merge

variable {w : Refresh T}

theorem read_all (hread : w.freshHasMore = true → w.fresh ≠ [])
    (hnone : w.effective.getLast? = none) : w.freshHasMore = false := by
  have hnil : w.fresh = [] := by
    rw [List.eq_nil_iff_forall_not_mem]
    intro row hrow
    have hmem := mem_effective.2 (Or.inl hrow)
    rw [List.getLast?_eq_none_iff.1 hnone] at hmem
    cases hmem
  rw [← Bool.not_eq_true]
  exact fun hmore => hread hmore hnil

variable (hw : w.WellFormed)

include hw

theorem fresh_shows (hnone : w.current.getLast? = none) :
    w.ShowsFresh ⟨w.fresh, w.freshHasMore⟩ := by
  refine ⟨fun oldLast hold => ?_, newestFirst_fresh hw, nodup_fresh hw, fun last hlast hbelow => ?_⟩
  · rw [hnone] at hold
    cases hold
  · obtain ⟨row, hrow, habove⟩ := hbelow
    refine decide_eq_true (Nat.lt_of_not_le fun hall => ?_)
    have hmem : row ∈ w.fresh := by
      rw [Refresh.fresh, List.take_of_length_le hall]
      exact hrow
    have hle := (newestFirst_fresh hw).last_le hlast hmem
    exact absurd ((sitsAbove_iff last row).1 habove) (not_lt.2 hle)

variable (hpreserved : PreservedReached w)
variable {oldLast last : WindowRow T} (hlast : w.effective.getLast? = some last)

include hpreserved hlast

theorem keepsUnreached_of_reached (hold : w.current.getLast? = some oldLast)
    (hreached : sitsAbove last oldLast = false) (m : MergedWindow T) : w.KeepsUnreached m := by
  rintro row _ _ _ ⟨freshLast, hfresh, hbelow⟩ ⟨oldLast', hold', habove⟩
  obtain rfl : oldLast = oldLast' := Option.some.inj (hold.symm.trans hold')
  -- a row between the last read and the old last row would be below what was reached
  have hlt : place row < place row := calc
    place row < place freshLast := (sitsAbove_iff freshLast row).1 hbelow
    _ ≤ place last := last_le_effective hw hpreserved hfresh (List.mem_of_getLast? hlast)
    _ ≤ place oldLast := (not_sitsAbove_iff last oldLast).1 hreached
    _ ≤ place row := (not_sitsAbove_iff oldLast row).1 habove
  exact absurd hlt (lt_irrefl _)

theorem append_keepsUnreached (hasMore : Bool) :
    w.KeepsUnreached ⟨w.effective ++ w.current.filter fun row =>
      decide (row.id ∉ ids w.effective) && sitsAbove last row, hasMore⟩ := by
  rintro row hrow hunread hunkept ⟨freshLast, hfresh, hbelow⟩ -
  refine List.mem_append_right _ (List.mem_filter.2 ⟨hrow, ?_⟩)
  rw [Bool.and_eq_true, decide_eq_true_eq, sitsAbove_iff]
  constructor
  · intro hmem
    obtain ⟨x, hx, hid⟩ := List.mem_map.1 hmem
    obtain hx | hx := mem_effective.1 hx
    · exact hunread (hid ▸ List.mem_map_of_mem hx)
    · obtain ⟨-, -, kept, hkept, hin⟩ := mem_preserved.1 hx
      exact hunkept kept hkept (hid ▸ hin)
  · have hle := last_le_effective hw hpreserved hfresh (List.mem_of_getLast? hlast)
    exact ((sitsAbove_iff freshLast row).1 hbelow).trans_le hle

end Merge

/-- **A refresh loses no row it did not reach.** A read that left rows out, and below which none is
preserved, keeps the loaded rows below it; every merge shows what was read down to the old last
row, in order. -/
theorem refreshed_window (w : Refresh T) (hw : w.WellFormed)
    (hread : w.freshHasMore = true → w.fresh ≠ [])
    (hplace : ∀ oldLast ∈ w.current.getLast?, ∀ row ∈ w.fresh,
      row.id = oldLast.id → row.receivedAt = oldLast.receivedAt) :
    ∃ m, w.merged = some m ∧ w.ShowsFresh m ∧
      (w.freshHasMore = true → PreservedReached w → w.KeepsUnreached m) := by
  unfold Refresh.merged mergeRefreshedWindow
  cases hold : w.current.getLast? with
  | none =>
    refine ⟨_, rfl, fresh_shows hw hold, fun _ _ row _ _ _ _ ⟨oldLast, h, _⟩ => ?_⟩
    exact absurd (hold.symm.trans h) (Option.some_ne_none oldLast).symm
  | some oldLast =>
    dsimp only
    cases hlast : w.effective.getLast? with
    | none =>
      have hall := read_all hread hlast
      refine ⟨_, if_pos (by rw [hall]; rfl), cut_keeps hw hold, fun hmore => ?_⟩
      rw [hall] at hmore
      cases hmore
    | some last =>
      have hlast' : (effectiveFresh w.current w.fresh w.preserveIds).getLast? = some last := hlast
      rw [hlast', Option.any_some]
      by_cases hreached : (!w.freshHasMore || !sitsAbove last oldLast) = true
      · refine ⟨_, if_pos hreached, cut_keeps hw hold, fun hmore hpreserved => ?_⟩
        rw [hmore, Bool.not_true, Bool.false_or, Bool.not_eq_true'] at hreached
        exact keepsUnreached_of_reached hw hpreserved hlast hold hreached _
      · have hshort : sitsAbove last oldLast = true := by
          rw [Bool.or_eq_true, not_or, Bool.not_eq_true', Bool.not_eq_false] at hreached
          simpa using hreached.2
        refine ⟨_, if_neg hreached, append_keeps hw hold hlast hshort (hplace oldLast hold), ?_⟩
        exact fun _ hpreserved => append_keepsUnreached hw hpreserved hlast _

/-! ## Runs of the merge -/

def row (id : Uuid) (time : Time) : WindowRow Unit := ⟨id, some time, ()⟩

/-- Three rows read of five, and one loaded row preserved above the last read. -/
def capped : Refresh Unit where
  server := [row 9 9, row 8 8, row 6 6, row 4 4, row 3 3]
  reach := 3
  current := [row 8 8, row 7 7, row 6 6, row 5 5, row 4 4]
  currentHasMore := true
  preserveIds := some [7]

theorem capped_wellFormed : capped.WellFormed :=
  ⟨by decide, by decide, by decide, by decide, by decide⟩

theorem refreshed_window_capped :
    capped.merged = some ⟨[row 9 9, row 8 8, row 7 7, row 6 6, row 5 5, row 4 4], true⟩ ∧
    ∃ m, capped.merged = some m ∧ capped.ShowsFresh m ∧ capped.KeepsUnreached m := by
  obtain ⟨m, hm, hshows, hkeeps⟩ := refreshed_window capped capped_wellFormed (by decide) (by decide)
  exact ⟨by decide, m, hm, hshows, hkeeps (by decide) (by decide)⟩

def deleted : Refresh Unit where
  server := [row 5 5, row 3 3]
  reach := 50
  current := [row 5 5, row 3 3, row 2 2]
  currentHasMore := false
  preserveIds := none

def preservedBelow : Refresh Unit where
  server := [row 6 6, row 5 5, row 4 4, row 2 2]
  reach := 2
  current := [row 6 6, row 5 5, row 4 4, row 3 3]
  currentHasMore := true
  preserveIds := some [3]

def redated : Refresh Unit where
  server := [row 7 9, row 8 8, row 3 6]
  reach := 2
  current := [row 8 8, row 6 7, row 7 5]
  currentHasMore := false
  preserveIds := none

def nothingRead : Refresh Unit where
  server := [row 1 1]
  reach := 0
  current := [row 1 1]
  currentHasMore := false
  preserveIds := none

/-- Each of these loses a row below the last one read, or the rows below the window, or is no
window. -/
theorem window_loses :
    (deleted.WellFormed ∧ ¬∃ m, deleted.merged = some m ∧ deleted.KeepsUnreached m) ∧
    (preservedBelow.WellFormed ∧
      ¬∃ m, preservedBelow.merged = some m ∧ preservedBelow.KeepsUnreached m) ∧
    (redated.WellFormed ∧ ¬∃ m, redated.merged = some m ∧ redated.ShowsFresh m) ∧
    (nothingRead.WellFormed ∧ nothingRead.merged = none) := by
  have hdeleted : deleted.merged = some ⟨[row 5 5, row 3 3], false⟩ := by decide
  have hbelow : preservedBelow.merged = some ⟨[row 6 6, row 5 5, row 3 3], true⟩ := by decide
  have hredated : redated.merged = some ⟨[row 7 9, row 8 8, row 6 7], false⟩ := by decide
  refine ⟨⟨⟨by decide, by decide, by decide, by decide, by decide⟩, ?_⟩,
    ⟨⟨by decide, by decide, by decide, by decide, by decide⟩, ?_⟩,
    ⟨⟨by decide, by decide, by decide, by decide, by decide⟩, ?_⟩,
    ⟨by decide, by decide, by decide, by decide, by decide⟩, by decide⟩
  · rintro ⟨m, hm, hkeeps⟩
    cases hdeleted.symm.trans hm
    exact absurd (hkeeps (row 2 2) (by decide) (by decide) (by decide) (by decide) (by decide))
      (by decide)
  · rintro ⟨m, hm, hkeeps⟩
    cases hbelow.symm.trans hm
    exact absurd (hkeeps (row 4 4) (by decide) (by decide) (by decide) (by decide) (by decide))
      (by decide)
  · rintro ⟨m, hm, hshows⟩
    cases hredated.symm.trans hm
    exact absurd (hshows.more (row 6 7) (by decide) (by decide)) (by decide)

end MailVerdict.Analysis.RefreshedWindow
