import LeasedWork.Number.Double

/-!
# Durations

A duration is a whole number of nanoseconds. Settings give it in seconds, possibly as a double;
such a value is rounded to the nearest nanosecond, and there is none for a value that is negative,
not finite, or as large as `2 ^ 64` seconds.
-/
namespace LeasedWork.Time

open Number (Double nearest)

/-- A length of time. -/
structure Duration where
  nanos : Nat
  deriving DecidableEq, Inhabited, Repr

/-- The nanoseconds of one second. -/
def nanosPerSecond : Nat := 1000000000

/-- The nanoseconds of one millisecond. -/
def nanosPerMilli : Nat := 1000000

namespace Duration

def zero : Duration := ⟨0⟩

def ofSeconds (n : Nat) : Duration := ⟨n * nanosPerSecond⟩

def ofMillis (n : Nat) : Duration := ⟨n * nanosPerMilli⟩

/-- Whole seconds. -/
def seconds (d : Duration) : Nat := d.nanos / nanosPerSecond

/-- The nanoseconds beyond the whole seconds. -/
def subsecond (d : Duration) : Nat := d.nanos % nanosPerSecond

def max (a b : Duration) : Duration := ⟨Nat.max a.nanos b.nanos⟩

/-- The duration of a number of seconds, to the nearest nanosecond. A negative zero is zero. -/
def ofDouble? (d : Double) : Option Duration :=
  if d.isFinite ∧ (d.isNegative → d.isZero) ∧ d.units < Number.twoTo 64 * Double.unitsPerOne then
    some ⟨nearest (d.units * nanosPerSecond) Double.unitsPerOne⟩
  else none

/-- A duration in seconds as a double: whole seconds and fraction are each rounded, and so is
their sum. -/
def toDouble (d : Duration) : Double :=
  (Double.ofNat d.seconds).add (Double.ofRatio d.subsecond nanosPerSecond)

/-- So many hundredths of a duration, by way of a double number of seconds. -/
def percent? (d : Duration) (hundredths : Nat) : Option Duration :=
  ofDouble? ((Double.ofRatio hundredths 100).mul d.toDouble)

theorem nanos_max (a b : Duration) : (max a b).nanos = Nat.max a.nanos b.nanos := rfl

end Duration

end LeasedWork.Time
