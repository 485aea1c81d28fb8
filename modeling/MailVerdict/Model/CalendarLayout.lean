import Mathlib.Data.Prod.Lex
import Mathlib.Data.Rat.Floor
import MailVerdict.Computation.IntervalTracks
import MailVerdict.Computation.CivilMonths

/-!
# Calendar layout

`layout.ts`: the lanes of spanning bars and the columns of a day's timed events, and the left edge
and the width `time-grid-column.tsx` draws an event with. Numbers are exact. Each entry of a list
is an object of its own, told from the others by its place.
-/

namespace MailVerdict.Model.CalendarLayout

open Computation.IntervalTracks

/-- `SpanningItem`: from one day of the week to another, both with it. -/
structure SpanningItem where
  startCol : ℤ
  endCol : ℤ
  le : startCol ≤ endCol

structure LanedItem where
  item : SpanningItem
  lane : ℕ

/-- A lane is free again after the last day of its item. -/
def laneClears (endCol startCol : ℤ) : Bool := decide (endCol < startCol)

/-- Sorted by start, then by duration, the longest first. -/
def sortSpans (items : List SpanningItem) : List SpanningItem :=
  items.mergeSort fun a b =>
    decide (toLex (a.startCol, -(a.endCol - a.startCol)) ≤
      toLex (b.startCol, -(b.endCol - b.startCol)))

def assignLanes (items : List SpanningItem) : List LanedItem :=
  (assign SpanningItem.startCol SpanningItem.endCol laneClears [] (sortSpans items)).1.map
    fun p => ⟨p.1, p.2⟩

/-- `TimedItem`: minutes from midnight. -/
structure TimedItem where
  startMin : ℚ
  endMin : ℚ
  lt : startMin < endMin

/-- An item as an object: with its place in the list. -/
abbrev Timed := TimedItem × ℕ

def Timed.start (x : Timed) : ℚ := x.1.startMin

def Timed.finish (x : Timed) : ℚ := x.1.endMin

structure PackedItem where
  item : Timed
  column : ℕ
  columns : ℕ
  expandable : Bool

/-- A column is free again when its item ends. -/
def columnClears (endMin startMin : ℚ) : Bool := decide (endMin ≤ startMin)

def sortTimed (items : List Timed) : List Timed :=
  items.mergeSort fun a b => decide (toLex (a.start, a.finish) ≤ toLex (b.start, b.finish))

def columnOf (assigned : List (Timed × ℕ)) (other : Timed) : ℕ :=
  ((assigned.find? fun a => a.1.2 == other.2).map Prod.snd).getD 0

/-- Nothing in a column further right is open while the item is. -/
def isExpandable (cluster : List Timed) (assigned : List (Timed × ℕ)) (item : Timed)
    (column : ℕ) : Bool :=
  !cluster.any fun other =>
    other.2 != item.2 && decide (column < columnOf assigned other) &&
      decide (other.start < item.finish) && decide (item.start < other.finish)

def packCluster (cluster : List Timed) : List PackedItem :=
  let placed := assign Timed.start Timed.finish columnClears [] cluster
  placed.1.map fun a =>
    ⟨a.1, a.2, placed.2.length, isExpandable cluster placed.1 a.1 a.2⟩

/-- The clusters of items that overlap in a chain. -/
def clusters (sorted : List Timed) : List (List Timed) :=
  match sorted with
  | [] => []
  | first :: rest => clustersFrom Timed.start Timed.finish columnClears [first] first.finish rest

def packColumns (items : List TimedItem) : List PackedItem :=
  (clusters (sortTimed items.zipIdx)).flatMap packCluster

/-- Where the event is drawn, in percent of the day. -/
def PackedItem.left (p : PackedItem) : ℚ := p.column / p.columns * 100

def PackedItem.width (p : PackedItem) : ℚ :=
  if p.expandable then 100 - p.column / p.columns * 100 else 100 / p.columns

end MailVerdict.Model.CalendarLayout

/-!
# The month scroller's windows

`month-window.ts` and the week arithmetic of `dates.ts` it rests on. Numbers are exact. A date is
the local time it shows, in seconds from 1970-01-01; a key `yyyy-MM` stands for the year and the
month it writes.
-/

namespace MailVerdict.Model.MonthWindow

open Computation.CivilMonths

/-! ## Local time -/

def midnight (day : ℤ) : ℤ := 86400 * day

def dayOf (time : ℤ) : ℤ := time / 86400

/-- The clocks of a place: what a `Date` that is set to a local time shows. A time they skip is
shown later by what they skip, a day at the most. Of a time that comes twice the first is meant, so
that dates compare as the times they show. -/
structure Zone where
  shown : ℤ → ℤ
  le_shown : ∀ time, time ≤ shown time
  shown_le : ∀ time, shown time ≤ time + 86400

/-! ## `dates.ts` -/

/-- `startOfWeek`, on Monday. 1970-01-01 was a Thursday. -/
def startOfWeek (day : ℤ) : ℤ := day - (day + 3) % 7

def weekEpoch : ℤ := startOfWeek 10959

def dateToWeekIndex (day : ℤ) : ℤ := (startOfWeek day - weekEpoch) / 7

def weekIndexMin : ℤ := dateToWeekIndex (monthStart (12 * 1900))

def weekIndexMax : ℤ := dateToWeekIndex (monthStart (12 * 2201) - 1)

/-- The day of the calendar that `weekDays(index)[i]` is for. -/
def weekDay (index i : ℤ) : ℤ := weekEpoch + 7 * index + i

structure MonthKey where
  year : ℤ
  month : ℤ
  deriving DecidableEq

/-- The key of a month counted from January of the year 0. -/
def monthKey (k : ℤ) : MonthKey := ⟨k / 12, k % 12 + 1⟩

section Dates

variable (z : Zone)

def addDays (date amount : ℤ) : ℤ :=
  if amount = 0 then date else z.shown (date + midnight amount)

def weekIndexToDate (index : ℤ) : ℤ := addDays z (z.shown (midnight weekEpoch)) (7 * index)

/-- `weekDays(index)[i]`. -/
def weekDays (index i : ℤ) : ℤ := addDays z (weekIndexToDate z index) i

def monthChunkKey (date : ℤ) : MonthKey := monthKey (monthOf (dayOf date))

/-- `new Date(date.getFullYear(), date.getMonth(), 1)`. -/
def firstOfMonth (date : ℤ) : ℤ := z.shown (midnight (monthStart (monthOf (dayOf date))))

/-- `cursor.setMonth(cursor.getMonth() + 1)`: the day of the month and the time of day stay. -/
def setNextMonth (cursor : ℤ) : ℤ :=
  let k := monthOf (dayOf cursor)
  z.shown (cursor + midnight (monthStart (k + 1) - monthStart k))

theorem lt_setNextMonth (cursor : ℤ) : cursor < setNextMonth z cursor := by
  have hlt := monthStart_lt_succ (monthOf (dayOf cursor))
  refine lt_of_lt_of_le ?_ (z.le_shown _)
  unfold midnight
  omega

/-- The loop of `monthsBetween`. -/
def monthsFrom (last cursor : ℤ) : List MonthKey :=
  if cursor ≤ last then monthChunkKey cursor :: monthsFrom last (setNextMonth z cursor) else []
termination_by (last + 1 - cursor).toNat
decreasing_by
  have hlt := lt_setNextMonth z cursor
  omega

def monthsBetween (first last : ℤ) : List MonthKey :=
  monthsFrom z (firstOfMonth z last) (firstOfMonth z first)

end Dates

/-! ## The anchor -/

def anchorFraction : ℚ := 4 / 10

/-- `anchorOffset`. `Math.round` rounds halves up. -/
def anchorOffset (viewportHeight : ℚ) : ℤ := ⌊viewportHeight * anchorFraction + 1 / 2⌋

def computeAnchorWeek (scrollTop viewportHeight rowHeight : ℚ) (min : ℤ) : ℤ :=
  if rowHeight ≤ 0 then min
  else ⌊(scrollTop + anchorOffset viewportHeight) / rowHeight⌋ + min

def scrollTopForAnchorWeek (week : ℤ) (viewportHeight rowHeight : ℚ) (min : ℤ) : ℚ :=
  (week - min) * rowHeight - anchorOffset viewportHeight

/-! ## The render window -/

/-- `RenderRange`, with its last week. -/
structure RenderRange where
  first : ℤ
  last : ℤ
  deriving DecidableEq

structure Viewport where
  scrollTop : ℚ
  viewportHeight : ℚ
  rowHeight : ℚ

def Viewport.firstVisible (v : Viewport) (min : ℤ) : ℤ := ⌊v.scrollTop / v.rowHeight⌋ + min

def Viewport.lastVisible (v : Viewport) (min : ℤ) : ℤ :=
  ⌊(v.scrollTop + v.viewportHeight) / v.rowHeight⌋ + min

def computeRenderRange (v : Viewport) (marginRows min max : ℤ) : RenderRange :=
  if v.rowHeight ≤ 0 then ⟨min, min⟩
  else ⟨Max.max min (v.firstVisible min - marginRows),
    Min.min max (v.lastVisible min + marginRows)⟩

/-- Enough rows are left before the visible ones, and after them. -/
def holds (current : RenderRange) (v : Viewport) (keepRows min max : ℤ) : Prop :=
  (current.first = min ∨ current.first ≤ v.firstVisible min - keepRows) ∧
    (current.last = max ∨ v.lastVisible min + keepRows ≤ current.last)

instance (current : RenderRange) (v : Viewport) (keepRows min max : ℤ) :
    Decidable (holds current v keepRows min max) := inferInstanceAs (Decidable (_ ∧ _))

def nextRenderRange (current : RenderRange) (v : Viewport) (marginRows keepRows min max : ℤ) :
    RenderRange :=
  if v.rowHeight ≤ 0 then computeRenderRange v marginRows min max
  else if holds current v keepRows min max then current
  else computeRenderRange v marginRows min max

/-! ## The fetch window -/

section Fetch

variable (z : Zone)

def monthsForRenderRange (range : RenderRange) : List MonthKey :=
  monthsBetween z (weekDays z range.first 0) (weekDays z range.last 6)

def dateYear (year : ℤ) : ℤ := if 0 ≤ year ∧ year ≤ 99 then 1900 + year else year

def shiftMonthKey (key : MonthKey) (deltaMonths : ℤ) : MonthKey :=
  monthChunkKey (z.shown (midnight
    (monthStart (12 * dateYear key.year + (key.month - 1 + deltaMonths)))))

def withMonthMargin (months : List MonthKey) : List MonthKey :=
  match months with
  | [] => []
  | first :: rest =>
    shiftMonthKey z first (-1) :: (first :: rest) ++
      [shiftMonthKey z ((first :: rest).getLast (List.cons_ne_nil _ _)) 1]

def computeFetchWindow (range : RenderRange) : List MonthKey :=
  withMonthMargin z (monthsForRenderRange z range)

end Fetch

end MailVerdict.Model.MonthWindow
