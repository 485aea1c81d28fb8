import Mathlib.Data.List.Induction
import MailVerdict.Model.CalendarLayout

/-!
# The month scroller shows no gap

The range that is kept has, after every step, `keepRows` rows beyond what is visible on each side
or ends at the bound (`holds_next`). The months that are fetched for a range are those from the
month before its first day to the month after its last (`mem_computeFetchWindow`), if no month but
the last begins at a midnight that the clocks skip: the cursor of `monthsBetween` shows such a month
an hour late, keeps the hour, and passes the first midnight of the last month with it.
-/

namespace MailVerdict.Analysis.MonthScroller

open Computation.CivilMonths
open Model.MonthWindow

variable {v : Viewport} {range : RenderRange} {marginRows keepRows min max w : ℤ} {z : Zone}

/-! ## The render window -/

def Visible (v : Viewport) (min w : ℤ) : Prop :=
  (w - min) * v.rowHeight < v.scrollTop + v.viewportHeight ∧
    v.scrollTop < (w - min + 1) * v.rowHeight

/-- The range has every week between the bounds that is visible or within `keepRows` of one that
is. -/
def Shows (range : RenderRange) (v : Viewport) (keepRows min max : ℤ) : Prop :=
  ∀ w u, min ≤ w → w ≤ max → Visible v min u → |w - u| ≤ keepRows →
    range.first ≤ w ∧ w ≤ range.last

theorem visible_bounds (hrow : 0 < v.rowHeight) (h : Visible v min w) :
    v.firstVisible min ≤ w ∧ w ≤ v.lastVisible min := by
  have hfirst : v.scrollTop / v.rowHeight < ((w - min + 1 : ℤ) : ℚ) := by
    rw [div_lt_iff₀ hrow]
    exact_mod_cast h.2
  have hlast : ((w - min : ℤ) : ℚ) ≤ (v.scrollTop + v.viewportHeight) / v.rowHeight := by
    rw [le_div_iff₀ hrow]
    exact_mod_cast h.1.le
  have hfloor := Int.floor_lt.2 hfirst
  have hfloor' := Int.le_floor.2 hlast
  unfold Viewport.firstVisible Viewport.lastVisible
  constructor
  · omega
  · omega

theorem holds_compute (hrow : 0 < v.rowHeight) (hkeep : keepRows ≤ marginRows) :
    holds (computeRenderRange v marginRows min max) v keepRows min max := by
  rw [computeRenderRange, if_neg (not_le.2 hrow)]
  constructor
  · rcases max_choice min (v.firstVisible min - marginRows) with h | h
    · exact .inl h
    · exact .inr (by dsimp only; omega)
  · rcases min_choice max (v.lastVisible min + marginRows) with h | h
    · exact .inl h
    · exact .inr (by dsimp only; omega)

/-- **After a step** the range holds, whatever it was. -/
theorem holds_next (hrow : 0 < v.rowHeight) (hkeep : keepRows ≤ marginRows) :
    holds (nextRenderRange range v marginRows keepRows min max) v keepRows min max := by
  rw [nextRenderRange, if_neg (not_le.2 hrow)]
  split
  · assumption
  · exact holds_compute hrow hkeep

theorem shows_of_holds (hrow : 0 < v.rowHeight) (h : holds range v keepRows min max) :
    Shows range v keepRows min max := by
  intro w u hmin hmax hvisible hnear
  obtain ⟨hfirst, hlast⟩ := visible_bounds hrow hvisible
  obtain ⟨hlow, hhigh⟩ := abs_le.1 hnear
  constructor
  · rcases h.1 with hbound | hbound
    · exact hbound.trans_le hmin
    · omega
  · rcases h.2 with hbound | hbound
    · exact hmax.trans_eq hbound.symm
    · omega

theorem min_le_compute : min ≤ (computeRenderRange v marginRows min max).first := by
  unfold computeRenderRange
  split
  · exact le_rfl
  · exact le_max_left _ _

theorem min_le_next (h : min ≤ range.first) :
    min ≤ (nextRenderRange range v marginRows keepRows min max).first := by
  unfold nextRenderRange
  split
  · exact min_le_compute
  · split
    · exact h
    · exact min_le_compute

def kept (marginRows keepRows min max : ℤ) (start : Viewport) (steps : List Viewport) :
    RenderRange :=
  steps.foldl (fun range v => nextRenderRange range v marginRows keepRows min max)
    (computeRenderRange start marginRows min max)

theorem kept_concat (start : Viewport) (steps : List Viewport) :
    kept marginRows keepRows min max start (steps ++ [v]) =
      nextRenderRange (kept marginRows keepRows min max start steps) v marginRows keepRows min
        max := by
  rw [kept, List.foldl_append, List.foldl_cons, List.foldl_nil, kept]

theorem min_le_kept (start : Viewport) (steps : List Viewport) :
    min ≤ (kept marginRows keepRows min max start steps).first := by
  induction steps using List.reverseRecOn with
  | nil => exact min_le_compute
  | append_singleton steps v ih =>
    rw [kept_concat]
    exact min_le_next ih

/-! ## The fetch window -/

/-- Months begin on days of the calendar: the range does with its first week, and no month of it
but the last begins at a midnight the clocks skip. -/
structure Unskipped (z : Zone) (range : RenderRange) : Prop where
  monday : dayOf (weekDays z range.first 0) = weekDay range.first 0
  months : ∀ k, monthOf (weekDay range.first 0) ≤ k →
    k < monthOf (dayOf (weekDays z range.last 6)) → z.shown (midnight (monthStart k)) = midnight (monthStart k)

theorem le_dayOf_iff {d time : ℤ} : d ≤ dayOf time ↔ midnight d ≤ time := by
  unfold dayOf midnight
  omega

/-- A `Date` of a month's first day is in that month. -/
theorem monthOf_shown (z : Zone) (k : ℤ) :
    monthOf (dayOf (z.shown (midnight (monthStart k)))) = k := by
  have hbefore := le_dayOf_iff.2 (z.le_shown (midnight (monthStart k)))
  have hafter := z.shown_le (midnight (monthStart k))
  have hmonth : monthStart k + 1 < monthStart (k + 1) := by
    unfold monthStart
    omega
  have hday : dayOf (z.shown (midnight (monthStart k))) < monthStart (k + 1) := by
    unfold dayOf midnight at *
    omega
  refine le_antisymm ?_ (le_monthOf_iff.2 hbefore)
  by_contra hlt
  exact absurd (le_monthOf_iff.1 (Int.add_one_le_iff.2 (not_le.1 hlt))) (not_le.2 hday)

/-- Where a month begins at its midnight the cursor goes on to the first of the next. -/
theorem setNextMonth_first {k : ℤ}
    (h : z.shown (midnight (monthStart k)) = midnight (monthStart k)) :
    setNextMonth z (z.shown (midnight (monthStart k))) =
      z.shown (midnight (monthStart (k + 1))) := by
  unfold setNextMonth
  simp only [monthOf_shown]
  rw [h]
  congr 1
  unfold midnight
  omega

theorem monthsFrom_eq (n : ℕ) (k : ℤ) (h : ∀ j, k ≤ j → j < k + n →
      z.shown (midnight (monthStart j)) = midnight (monthStart j)) :
    monthsFrom z (z.shown (midnight (monthStart (k + n)))) (z.shown (midnight (monthStart k))) =
      (List.range (n + 1)).map fun i : ℕ => monthKey (k + i) := by
  induction n generalizing k with
  | zero =>
    rw [monthsFrom, Nat.cast_zero, add_zero, if_pos le_rfl, monthsFrom,
      if_neg (not_le.2 (lt_setNextMonth z _)), monthChunkKey, monthOf_shown]
    simp
  | succ n ih =>
    have hk := h k le_rfl (by omega)
    have hle : midnight (monthStart k) ≤ midnight (monthStart (k + (n + 1 : ℕ))) := by
      have hmono : monthStart k ≤ monthStart (k + (n + 1 : ℕ)) := monthStart_mono (by omega)
      unfold midnight
      omega
    have hnext : k + (n + 1 : ℕ) = k + 1 + n := by omega
    rw [monthsFrom, if_pos (hk.trans_le (hle.trans (z.le_shown _))), monthChunkKey, monthOf_shown,
      setNextMonth_first hk, hnext, ih (k + 1) fun j hj hlt => h j (by omega) (by omega),
      List.range_succ_eq_map (n := n + 1), List.map_cons, List.map_map]
    simp only [Nat.cast_zero, add_zero]
    congr 1
    refine List.map_congr_left fun i _ => ?_
    congr 1
    omega

theorem shiftMonthKey_monthKey {k : ℤ} (hk : 12 * 1900 ≤ k) (delta : ℤ) :
    shiftMonthKey z (monthKey k) delta = monthKey (k + delta) := by
  have hyear : dateYear (k / 12) = k / 12 := by
    exact if_neg (by omega)
  have hsum : 12 * (k / 12) + (k % 12 + 1 - 1 + delta) = k + delta := by omega
  unfold shiftMonthKey monthChunkKey
  rw [monthOf_shown]
  change monthKey (12 * dateYear (k / 12) + (k % 12 + 1 - 1 + delta)) = _
  rw [hyear, hsum]

/-- A day of a week is shown on that day or later. -/
theorem le_dayOf_weekDays (index i : ℤ) : weekDay index i ≤ dayOf (weekDays z index i) := by
  have hadd : ∀ date amount, date + midnight amount ≤ addDays z date amount := by
    intro date amount
    unfold addDays
    split
    · rename_i hzero
      rw [hzero]
      exact (add_zero date).le
    · exact z.le_shown _
  have hepoch := z.le_shown (midnight weekEpoch)
  have hmonday := hadd (z.shown (midnight weekEpoch)) (7 * index)
  have hday := hadd (weekIndexToDate z index) i
  rw [le_dayOf_iff]
  unfold weekDays weekIndexToDate weekDay midnight at *
  omega

/-- **What is fetched**: the months of the range with one more on each side. -/
theorem mem_computeFetchWindow {k : ℤ} (hskip : Unskipped z range)
    (hmin : weekIndexMin ≤ range.first) (hle : range.first ≤ range.last)
    (hfirst : monthOf (weekDay range.first 0) - 1 ≤ k)
    (hlast : k ≤ monthOf (weekDay range.last 6) + 1) :
    monthKey k ∈ computeFetchWindow z range := by
  have hbound : 12 * 1900 ≤ monthOf (weekDay range.first 0) := by
    have hday : monthStart (12 * 1900) = weekDay weekIndexMin 0 := by decide +kernel
    rw [le_monthOf_iff, hday]
    unfold weekDay
    omega
  have hmono : monthOf (weekDay range.first 0) ≤ monthOf (weekDay range.last 6) := by
    refine monthOf_mono ?_
    unfold weekDay
    omega
  have hshown := monthOf_mono (le_dayOf_weekDays (z := z) range.last 6)
  obtain ⟨n, hn⟩ : ∃ n : ℕ, monthOf (dayOf (weekDays z range.last 6)) =
      monthOf (weekDay range.first 0) + n :=
    ⟨(monthOf (dayOf (weekDays z range.last 6)) - monthOf (weekDay range.first 0)).toNat, by omega⟩
  have hall : monthsForRenderRange z range = (List.range (n + 1)).map fun i : ℕ =>
      monthKey (monthOf (weekDay range.first 0) + i) := by
    have hmonths := hskip.months
    rw [hn] at hmonths
    unfold monthsForRenderRange monthsBetween firstOfMonth
    rw [hskip.monday, hn]
    exact monthsFrom_eq n _ hmonths
  have hcons : monthsForRenderRange z range = monthKey (monthOf (weekDay range.first 0)) ::
      (List.range n).map fun i : ℕ => monthKey (monthOf (weekDay range.first 0) + (i + 1 : ℕ)) := by
    rw [hall, List.range_succ_eq_map, List.map_cons, List.map_map, Nat.cast_zero, add_zero]
    rfl
  have hend : ∀ h, (monthsForRenderRange z range).getLast h =
      monthKey (monthOf (weekDay range.first 0) + n) := by
    intro h
    simp only [hall, List.range_succ, List.map_append, List.map_cons, List.map_nil,
      List.getLast_append_singleton]
  have hend' := hend (by rw [hcons]; exact List.cons_ne_nil _ _)
  have hinner : monthOf (weekDay range.first 0) ≤ k → k ≤ monthOf (weekDay range.first 0) + n →
      monthKey k ∈ monthsForRenderRange z range := by
    intro hlow hhigh
    rw [hall]
    refine List.mem_map.2 ⟨(k - monthOf (weekDay range.first 0)).toNat,
      List.mem_range.2 (by omega), ?_⟩
    congr 1
    omega
  rw [computeFetchWindow]
  simp only [hcons] at hend' hinner ⊢
  rw [withMonthMargin, hend', shiftMonthKey_monthKey hbound,
    shiftMonthKey_monthKey (by omega)]
  rcases lt_or_ge k (monthOf (weekDay range.first 0)) with hlt | hge
  · have heq : monthOf (weekDay range.first 0) + -1 = k := by omega
    simp [heq]
  rcases lt_or_ge (monthOf (weekDay range.first 0) + n) k with hgt | hle'
  · have heq : monthOf (weekDay range.first 0) + n + 1 = k := by omega
    simp [heq]
  · exact List.mem_append_left _ (List.mem_cons_of_mem _ (hinner hge hle'))

/-- **The month of every day** of every week of the range is fetched, with its neighbours. -/
theorem month_fetched (hskip : Unskipped z range) (hmin : weekIndexMin ≤ range.first)
    (hfirst : range.first ≤ w) (hlast : w ≤ range.last) {i delta : ℤ} (hi : 0 ≤ i ∧ i ≤ 6)
    (hdelta : |delta| ≤ 1) :
    monthKey (monthOf (weekDay w i) + delta) ∈ computeFetchWindow z range := by
  obtain ⟨hlow, hhigh⟩ := abs_le.1 hdelta
  have hbefore : monthOf (weekDay range.first 0) ≤ monthOf (weekDay w i) := by
    refine monthOf_mono ?_
    unfold weekDay
    omega
  have hafter : monthOf (weekDay w i) ≤ monthOf (weekDay range.last 6) := by
    refine monthOf_mono ?_
    unfold weekDay
    omega
  exact mem_computeFetchWindow hskip hmin (hfirst.trans hlast) (by omega) (by omega)

/-! ## The anchor -/

theorem anchor_round_trip {rowHeight : ℕ} (hrow : 0 < rowHeight) (week : ℤ) (viewportHeight : ℚ) :
    computeAnchorWeek (scrollTopForAnchorWeek week viewportHeight rowHeight min) viewportHeight
      rowHeight min = week := by
  have hpos : (0 : ℚ) < rowHeight := Nat.cast_pos.2 hrow
  rw [computeAnchorWeek, if_neg (not_le.2 hpos), scrollTopForAnchorWeek, sub_add_cancel,
    mul_div_cancel_right₀ _ hpos.ne', ← Int.cast_sub, Int.floor_intCast, sub_add_cancel]

/-- The months that have to be fetched for a range: those of its days, and one more on each side. -/
def FetchesNeighbours (z : Zone) (range : RenderRange) : Prop :=
  ∀ w i delta, range.first ≤ w → w ≤ range.last → 0 ≤ i ∧ i ≤ 6 → |delta| ≤ 1 →
    monthKey (monthOf (weekDay w i) + delta) ∈ computeFetchWindow z range

/-- **No gap.** After any positions the range shows what is visible with `keepRows` rows around it,
a further one changes it only if it does not hold there, and the months of its days are fetched
with their neighbours while no month of it but the last begins at a skipped midnight. -/
theorem scroller_shows_no_gap (z : Zone) (marginRows keepRows : ℕ) (min max : ℤ)
    (hkeep : keepRows ≤ marginRows) (hmin : weekIndexMin ≤ min) (start : Viewport)
    (steps : List Viewport) (hstart : 0 < start.rowHeight) (hsteps : ∀ v ∈ steps, 0 < v.rowHeight) :
    Shows (kept marginRows keepRows min max start steps) ((start :: steps).getLast (by simp))
      keepRows min max ∧
    (∀ v, 0 < v.rowHeight →
      kept marginRows keepRows min max start (steps ++ [v]) ≠
        kept marginRows keepRows min max start steps →
      ¬ holds (kept marginRows keepRows min max start steps) v keepRows min max) ∧
    (Unskipped z (kept marginRows keepRows min max start steps) →
      FetchesNeighbours z (kept marginRows keepRows min max start steps)) ∧
    ∀ (rowHeight : ℕ) (week : ℤ) (viewportHeight : ℚ), 0 < rowHeight →
      computeAnchorWeek (scrollTopForAnchorWeek week viewportHeight rowHeight min) viewportHeight
        rowHeight min = week := by
  refine ⟨?_, ?_, ?_, fun rowHeight week viewportHeight hrow =>
    anchor_round_trip hrow week viewportHeight⟩
  · rcases List.eq_nil_or_concat steps with rfl | ⟨steps, v, rfl⟩
    · exact shows_of_holds hstart (holds_compute hstart (Int.ofNat_le.2 hkeep))
    · have hrow := hsteps v (by simp)
      simp only [List.concat_eq_append, kept_concat, ← List.cons_append,
        List.getLast_append_singleton]
      exact shows_of_holds hrow (holds_next hrow (Int.ofNat_le.2 hkeep))
  · intro v hrow hne hholds
    refine hne ?_
    rw [kept_concat, nextRenderRange, if_neg (not_le.2 hrow), if_pos hholds]
  · intro hskip w i delta hfirst hlast hi hdelta
    exact month_fetched hskip (hmin.trans (min_le_kept start steps)) hfirst hlast hi hdelta

/-! ## A clock that goes forward at midnight -/

/-- On the first of October 2023 the hour after midnight is skipped. -/
def springForward : Zone where
  shown time :=
    if midnight (monthStart (12 * 2023 + 9)) ≤ time ∧
        time < midnight (monthStart (12 * 2023 + 9)) + 3600 then time + 3600
    else time
  le_shown time := by split <;> omega
  shown_le time := by split <;> omega

/-- The weeks from 4 September to 29 October: the skipped hour begins the last month. -/
theorem scroller_shows_no_gap_jump :
    kept 2 1 weekIndexMin weekIndexMax ⟨0, 0, 72⟩ [⟨464760, 287, 72⟩] = ⟨1235, 1242⟩ ∧
      Shows ⟨1235, 1242⟩ ⟨464760, 287, 72⟩ 1 weekIndexMin weekIndexMax ∧
      FetchesNeighbours springForward ⟨1235, 1242⟩ := by
  have hkept : kept 2 1 weekIndexMin weekIndexMax ⟨0, 0, 72⟩ [⟨464760, 287, 72⟩] =
      ⟨1235, 1242⟩ := by decide +kernel
  have h := scroller_shows_no_gap springForward 2 1 weekIndexMin weekIndexMax (by decide) le_rfl
    ⟨0, 0, 72⟩ [⟨464760, 287, 72⟩] (by norm_num) (by simp)
  simp only [Nat.cast_ofNat, Nat.cast_one, hkept] at h
  refine ⟨hkept, h.1, h.2.2.1 ⟨by decide +kernel, fun k hlow hhigh => ?_⟩⟩
  have hfirst : monthOf (weekDay 1235 0) = 24284 := by decide +kernel
  have hlast : monthOf (dayOf (weekDays springForward 1242 6)) = 24285 := by decide +kernel
  have hk : k = 24284 := by
    rw [hfirst] at hlow
    rw [hlast] at hhigh
    omega
  rw [hk]
  decide +kernel

theorem fetched_springForward : computeFetchWindow springForward ⟨1238, 1247⟩ =
    [⟨2023, 8⟩, ⟨2023, 9⟩, ⟨2023, 10⟩, ⟨2023, 11⟩, ⟨2023, 12⟩] := by
  have hmonths : monthsForRenderRange springForward ⟨1238, 1247⟩ =
      [⟨2023, 9⟩, ⟨2023, 10⟩, ⟨2023, 11⟩] := by
    unfold monthsForRenderRange monthsBetween
    rw [monthsFrom, if_pos (by decide +kernel), monthsFrom, if_pos (by decide +kernel),
      monthsFrom, if_pos (by decide +kernel), monthsFrom, if_neg (by decide +kernel)]
    decide +kernel
  unfold computeFetchWindow
  rw [hmonths]
  decide +kernel

/-- The weeks from 25 September to 3 December: the cursor shows the first of October an hour late,
and December is left out with the January after it. -/
theorem december_passed_over :
    kept 2 1 weekIndexMin weekIndexMax ⟨0, 0, 72⟩ [⟨464976, 431, 72⟩] = ⟨1238, 1247⟩ ∧
      ¬ FetchesNeighbours springForward ⟨1238, 1247⟩ := by
  refine ⟨by decide +kernel, fun h => ?_⟩
  have hday := h 1247 6 1 (by decide) le_rfl (by decide) (by decide)
  rw [fetched_springForward] at hday
  revert hday
  decide +kernel

end MailVerdict.Analysis.MonthScroller
