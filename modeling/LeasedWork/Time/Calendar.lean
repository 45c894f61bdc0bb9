/-!
# The calendar

Days are counted from the first of January of the year zero in the calendar of today, extended
in both directions. Day counts of years are a sum of floors, so a date and its day number are
related by linear arithmetic and a walk over twelve months.
-/
namespace LeasedWork.Time

/-- A date of the calendar. -/
structure Date where
  year : Int
  /-- From one to twelve. -/
  month : Nat
  /-- From one. -/
  day : Nat
  deriving DecidableEq, Inhabited, Repr

/-- Whether a year has 366 days. -/
def isLeapYear (year : Int) : Bool := year % 4 = 0 && (year % 100 ≠ 0 || year % 400 = 0)

/-- The days before the first of January of a year, counted from the year zero. -/
def daysBeforeYear (year : Int) : Int :=
  365 * year + (year + 3) / 4 - (year + 99) / 100 + (year + 399) / 400

/-- The lengths of the months of a year. -/
def monthLengths (year : Int) : List Nat :=
  [31, if isLeapYear year then 29 else 28, 31, 30, 31, 30, 31, 31, 30, 31, 30, 31]

/-- Whether a date is one of the calendar. -/
def Date.isValid (d : Date) : Bool :=
  1 ≤ d.month && d.month ≤ 12 && 1 ≤ d.day && d.day ≤ (monthLengths d.year).getD (d.month - 1) 0

/-- The days of the first months of a year, as many as are asked for. -/
def daysOfMonths : Nat → List Nat → Nat
  | n + 1, length :: rest => length + daysOfMonths n rest
  | _, _ => 0

/-- The number of the day of a date. -/
def Date.dayNumber (d : Date) : Int :=
  daysBeforeYear d.year + daysOfMonths (d.month - 1) (monthLengths d.year) + (d.day - 1 : Nat)

/-- The year that a day belongs to: an estimate from the mean length of a year is off by one at
most. -/
def yearOfDay (day : Int) : Int :=
  let estimate := day * 400 / 146097
  if day < daysBeforeYear estimate then estimate - 1
  else if daysBeforeYear (estimate + 1) ≤ day then estimate + 1
  else estimate

/-- Walks over months: how many are over before a day of the year, and the day in the next. -/
def walkMonths : List Nat → Nat → Nat × Nat
  | [], day => (0, day)
  | length :: rest, day =>
    if day < length then (0, day)
    else
      let (months, remaining) := walkMonths rest (day - length)
      (months + 1, remaining)

def Date.ofDayNumber (day : Int) : Date :=
  let year := yearOfDay day
  let (months, remaining) := walkMonths (monthLengths year) (day - daysBeforeYear year).toNat
  ⟨year, months + 1, remaining + 1⟩

theorem daysBeforeYear_yearOfDay (day : Int) :
    daysBeforeYear (yearOfDay day) ≤ day ∧ day < daysBeforeYear (yearOfDay day + 1) := by
  have estimate : daysBeforeYear (day * 400 / 146097 - 1) ≤ day ∧
      day < daysBeforeYear (day * 400 / 146097 + 2) := by
    simp only [daysBeforeYear]; omega
  have next (year : Int) : year - 1 + 1 = year ∧ year + 1 + 1 = year + 2 := by omega
  simp only [yearOfDay]
  by_cases before : day < daysBeforeYear (day * 400 / 146097)
  · rw [if_pos before, (next _).1]
    exact ⟨estimate.1, before⟩
  · by_cases after : daysBeforeYear (day * 400 / 146097 + 1) ≤ day
    · rw [if_neg before, if_pos after, (next _).2]
      exact ⟨after, estimate.2⟩
    · rw [if_neg before, if_neg after]
      omega

end LeasedWork.Time
