import Mathlib.Algebra.BigOperators.Group.List.Basic
import Mathlib.Algebra.GroupWithZero.Nat
import Mathlib.Tactic.Common

/-!
# Counting the days of the Gregorian calendar

The days before a date are the lengths of the years before it and of the months before it in its
year, and the days before it in its month.
-/

namespace Gregorian

/-- Every fourth year is a leap year, but of the full centuries only every fourth one. -/
def IsLeap (year : ℕ) : Prop := year % 4 = 0 ∧ (year % 100 ≠ 0 ∨ year % 400 = 0)

instance (year : ℕ) : Decidable (IsLeap year) := inferInstanceAs (Decidable (_ ∧ _))

/-- The days of a year. -/
def yearLength (year : ℕ) : ℕ := if IsLeap year then 366 else 365

/-- The days of a month, with January as month 1. -/
def monthLength (year month : ℕ) : ℕ :=
  if month = 2 then if IsLeap year then 29 else 28
  else if month = 4 ∨ month = 6 ∨ month = 9 ∨ month = 11 then 30
  else 31

/-- The days of the years before a year. -/
def daysToYear (year : ℕ) : ℕ := ((List.range year).map yearLength).sum

/-- The days of a year before a month. -/
def daysToMonth (year month : ℕ) : ℕ :=
  ((List.range (month - 1)).map fun m => monthLength year (m + 1)).sum

/-- The days before the first of a month, from the start of the year zero on. -/
def daysTo (year month : ℕ) : ℕ := daysToYear year + daysToMonth year month

theorem daysToYear_succ (year : ℕ) :
    daysToYear (year + 1) = daysToYear year + yearLength year := by
  simp [daysToYear, List.range_succ]

/-- The years before a year in a closed form. -/
theorem daysToYear_eq (year : ℕ) :
    (daysToYear year : ℤ) = 365 * year + (((year : ℤ) - 1) / 4 - ((year : ℤ) - 1) / 100 +
      ((year : ℤ) - 1) / 400 + 1) := by
  induction year with
  | zero => decide
  | succ year ih =>
    rw [daysToYear_succ, Int.natCast_add, ih, yearLength]
    by_cases hleap : IsLeap year
    · rw [if_pos hleap]
      unfold IsLeap at hleap
      omega
    · rw [if_neg hleap]
      unfold IsLeap at hleap
      omega

/-- No year is longer than 366 days. -/
theorem daysToYear_le (year : ℕ) : daysToYear year ≤ 366 * year := by
  induction year with
  | zero => decide
  | succ year ih =>
    have hlength : yearLength year ≤ 366 := by
      unfold yearLength
      split <;> decide
    rw [daysToYear_succ]
    omega

/-- The days before a month, from a table of the common year. -/
theorem daysToMonth_eq (year : ℕ) {month : ℕ} (h : month < 12) :
    daysToMonth year (month + 1) =
      [0, 31, 59, 90, 120, 151, 181, 212, 243, 273, 304, 334].getD month 0 +
        if IsLeap year ∧ 2 ≤ month then 1 else 0 := by
  by_cases hleap : IsLeap year
  · simp only [daysToMonth, monthLength, hleap, true_and]
    revert month
    decide
  · simp only [daysToMonth, monthLength, hleap, false_and, if_false]
    revert month
    decide

/-- No month starts later than 335 days into its year. -/
theorem daysToMonth_le (year : ℕ) {month : ℕ} (h : month < 12) :
    daysToMonth year (month + 1) ≤ 335 := by
  have htable : ∀ m < 12,
      [0, 31, 59, 90, 120, 151, 181, 212, 243, 273, 304, 334].getD m 0 ≤ 334 := by decide
  have hmonth := htable month h
  rw [daysToMonth_eq year h]
  split <;> omega

end Gregorian
