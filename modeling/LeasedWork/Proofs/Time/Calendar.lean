import LeasedWork.Time.Calendar
import Mathlib.Algebra.BigOperators.Group.List.Basic
import Mathlib.Algebra.GroupWithZero.Nat
import Mathlib.Data.List.GetD

/-!
# Days and dates

The date of a day is a date of the calendar and has the number of that day. The year is right by
the lemma beside its definition; what remains is that a walk over the months of a year stops in
the month of the day.
-/
namespace LeasedWork.Time

variable {lengths : List Nat} {day : Nat}

/-- A walk over months stops inside one of them, and the days of the months that are over and
those walked in the last one are all the days. -/
theorem walkMonths_spec (h : day < lengths.sum) :
    (walkMonths lengths day).1 < lengths.length ∧
      (walkMonths lengths day).2 < lengths.getD (walkMonths lengths day).1 0 ∧
      daysOfMonths (walkMonths lengths day).1 lengths + (walkMonths lengths day).2 = day := by
  induction lengths generalizing day with
  | nil => simp at h
  | cons length rest ih =>
    rw [walkMonths]
    by_cases hday : day < length
    · simp only [if_pos hday]
      exact ⟨Nat.zero_lt_succ _, hday, Nat.zero_add day⟩
    · rw [List.sum_cons] at h
      obtain ⟨hmonth, hremaining, hdays⟩ := ih (show day - length < rest.sum by omega)
      simp only [if_neg hday]
      refine ⟨Nat.succ_lt_succ hmonth, hremaining, ?_⟩
      change length + daysOfMonths (walkMonths rest (day - length)).1 rest + _ = day
      omega

theorem sum_monthLengths (year : Int) :
    ((monthLengths year).sum : Int) = daysBeforeYear (year + 1) - daysBeforeYear year := by
  by_cases hleap : isLeapYear year = true
  · have hyear := hleap
    simp only [isLeapYear, Bool.and_eq_true, Bool.or_eq_true, decide_eq_true_eq, ne_eq] at hyear
    simp only [monthLengths, hleap, if_true, daysBeforeYear, List.sum_cons, List.sum_nil]
    omega
  · have hyear := hleap
    simp only [isLeapYear, Bool.and_eq_true, Bool.or_eq_true, decide_eq_true_eq, ne_eq] at hyear
    simp only [monthLengths, hleap, if_false, Bool.false_eq_true, daysBeforeYear, List.sum_cons,
      List.sum_nil]
    omega

/-- No month is longer than 31 days. -/
theorem getD_monthLengths_le (year : Int) (month : Nat) : (monthLengths year).getD month 0 ≤ 31 := by
  have hall : ∀ length ∈ monthLengths year, length ≤ 31 := by
    cases hleap : isLeapYear year <;> simp [monthLengths, hleap]
  by_cases hmonth : month < (monthLengths year).length
  · rw [List.getD_eq_getElem _ _ hmonth]
    exact hall _ (List.getElem_mem hmonth)
  · rw [List.getD_eq_default _ _ (Nat.not_lt.mp hmonth)]
    exact Nat.zero_le 31

namespace Date

/-- The days of the year before a day, and the walk to it over the months. -/
theorem ofDayNumber_spec (day : Int) :
    (ofDayNumber day).isValid = true ∧ (ofDayNumber day).dayNumber = day := by
  obtain ⟨hfirst, hlast⟩ := daysBeforeYear_yearOfDay day
  have hsum := sum_monthLengths (yearOfDay day)
  have hday : (day - daysBeforeYear (yearOfDay day)).toNat < (monthLengths (yearOfDay day)).sum := by
    omega
  obtain ⟨hmonth, hremaining, hdays⟩ := walkMonths_spec hday
  have htwelve : (monthLengths (yearOfDay day)).length = 12 := rfl
  generalize hwalk : walkMonths (monthLengths (yearOfDay day))
    (day - daysBeforeYear (yearOfDay day)).toNat = walked at *
  have hdate : ofDayNumber day = ⟨yearOfDay day, walked.1 + 1, walked.2 + 1⟩ := by
    rw [← hwalk]
    rfl
  rw [hdate]
  constructor
  · simp only [isValid, Nat.add_sub_cancel, Bool.and_eq_true, decide_eq_true_eq]
    omega
  · simp only [dayNumber, Nat.add_sub_cancel]
    omega

/-- The month and the day of a date of the calendar have two digits at most. -/
theorem lt_of_isValid {d : Date} (h : d.isValid = true) : d.month < 100 ∧ d.day < 100 := by
  have hlength := getD_monthLengths_le d.year (d.month - 1)
  simp only [isValid, Bool.and_eq_true, decide_eq_true_eq] at h
  omega

end Date

end LeasedWork.Time
