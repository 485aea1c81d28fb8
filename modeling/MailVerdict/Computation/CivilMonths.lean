import Mathlib.Algebra.Order.Ring.Int

/-!
# Months of the civil calendar

Days are counted from 1970-01-01 and months from January of the year 0, both in the Gregorian
calendar. A day is in the month that starts on it or before it, and whose successor does not
(`le_monthOf_iff`).
-/

namespace MailVerdict.Computation.CivilMonths

/-- The first day of a month. Years are counted from March on, so that the leap day is last. -/
def monthStart (k : ℤ) : ℤ :=
  365 * ((k - 2) / 12) + (k - 2) / 12 / 4 - (k - 2) / 12 / 100 + (k - 2) / 12 / 400 +
    (153 * ((k - 2) % 12) + 2) / 5 - 719468

/-- The month a day would be in if all were equally long. -/
def nearMonth (d : ℤ) : ℤ := (d + 719468) * 4800 / 146097 + 2

def monthOf (d : ℤ) : ℤ :=
  if d < monthStart (nearMonth d) then nearMonth d - 1
  else if monthStart (nearMonth d + 1) ≤ d then nearMonth d + 1
  else nearMonth d

theorem monthStart_lt_succ (k : ℤ) : monthStart k < monthStart (k + 1) := by
  unfold monthStart
  omega

theorem monthStart_mono {k l : ℤ} (h : k ≤ l) : monthStart k ≤ monthStart l :=
  monotone_int_of_le_succ (fun k => (monthStart_lt_succ k).le) h

theorem near_monthStart (k : ℤ) :
    146097 * (k - 2) - 4800 * 4 ≤ 4800 * (monthStart k + 719468) ∧
      4800 * (monthStart k + 719468) ≤ 146097 * (k - 2) + 4800 * 4 := by
  unfold monthStart
  omega

theorem monthOf_spec (d : ℤ) : monthStart (monthOf d) ≤ d ∧ d < monthStart (monthOf d + 1) := by
  have hbefore : monthStart (nearMonth d - 1) ≤ d := by
    have h := (near_monthStart (nearMonth d - 1)).2
    unfold nearMonth at h ⊢
    omega
  have hafter : d < monthStart (nearMonth d + 1 + 1) := by
    have h := (near_monthStart (nearMonth d + 1 + 1)).1
    unfold nearMonth at h ⊢
    omega
  unfold monthOf
  split
  · rename_i hlt
    exact ⟨hbefore, by rwa [sub_add_cancel]⟩
  · split
    · rename_i hle
      exact ⟨hle, hafter⟩
    · exact ⟨not_lt.1 ‹_›, not_le.1 ‹_›⟩

/-- **A day is in a month or a later one** exactly if it is not before its start. -/
theorem le_monthOf_iff {k d : ℤ} : k ≤ monthOf d ↔ monthStart k ≤ d := by
  constructor
  · exact fun h => (monthStart_mono h).trans (monthOf_spec d).1
  · intro h
    by_contra hlt
    have hsucc : monthOf d + 1 ≤ k := Int.add_one_le_iff.2 (not_le.1 hlt)
    exact absurd ((monthStart_mono hsucc).trans h) (not_le.2 (monthOf_spec d).2)

theorem monthOf_mono {d e : ℤ} (h : d ≤ e) : monthOf d ≤ monthOf e :=
  le_monthOf_iff.2 ((monthOf_spec _).1.trans h)

end MailVerdict.Computation.CivilMonths
