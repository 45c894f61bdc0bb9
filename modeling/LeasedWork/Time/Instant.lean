import LeasedWork.Time.Calendar
import LeasedWork.Time.Duration

/-!
# Instants

A point of time on the scale that counts 86400 seconds for every day. A leap second is kept as a
fraction of a second or more in the second before it, so that a date that names one is written
back as it was read.
-/
namespace LeasedWork.Time

/-- Why there is no date for a point of time. -/
inductive DateFault where
  /-- The time to go back by is longer than any span can be. -/
  | longSpan
  /-- No date can name the time before. -/
  | badDifference
  /-- No date can name the time after. -/
  | badSum
  deriving DecidableEq, Inhabited, Repr

def DateFault.message : DateFault → String
  | longSpan => "TimeDelta::seconds out of bounds"
  | badDifference => "`DateTime - TimeDelta` overflowed"
  | badSum => "`DateTime + TimeDelta` overflowed"

/-- A point of time, in seconds since the beginning of 1970 and nanoseconds beyond them. -/
structure Instant where
  second : Int
  /-- A thousand million or more inside a leap second. -/
  nano : Nat
  deriving DecidableEq, Inhabited, Repr

/-- The seconds of a day. -/
def secondsPerDay : Int := 86400

/-- The number of the first day of 1970. -/
def epochDay : Int := 719528

namespace Instant

/-- The nanoseconds since the beginning of 1970. -/
def nanos (t : Instant) : Int := t.second * nanosPerSecond + t.nano

/-- The beginning of a date. -/
def ofDate (d : Date) : Instant := ⟨(d.dayNumber - epochDay) * secondsPerDay, 0⟩

/-- Later by a number of milliseconds. -/
def addMillis (t : Instant) (ms : Nat) : Instant :=
  let total := t.nano + ms % 1000 * nanosPerMilli
  ⟨t.second + ms / 1000 + total / nanosPerSecond, total % nanosPerSecond⟩

/-- The first second that a date can name. -/
def leastSecond : Int := (ofDate ⟨-262143, 1, 1⟩).second

/-- The first second past those that a date can name. -/
def endSecond : Int := (ofDate ⟨262143, 1, 1⟩).second

/-- Whether a date can name a second. -/
def isNameable (second : Int) : Bool := leastSecond ≤ second && second < endSecond

/-- The longest span of time, in whole seconds. -/
def longestSpan : Nat := (Number.twoTo 63 - 1) / 1000

/-- Earlier by a number of seconds, if a date can name the result. -/
def earlier (t : Instant) (seconds : Int) : Except DateFault Instant :=
  if longestSpan < seconds.natAbs then .error .longSpan
  else if isNameable (t.second - seconds) then .ok { t with second := t.second - seconds }
  else .error .badDifference

/-- Milliseconds from one instant to a later one, rounded down. -/
def millisSince (t start : Instant) : Int := (t.nanos - start.nanos) / nanosPerMilli

end Instant

end LeasedWork.Time
