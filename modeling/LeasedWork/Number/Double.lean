import LeasedWork.Number.Nearest
import LeasedWork.Number.Power
import LeasedWork.Text.Digits

/-!
# Double-precision numbers

A double is its 64 bits. Every finite one is a whole number of `2 ^ (-1074)`; its magnitude is
kept as that natural number, so comparing, adding and multiplying doubles is arithmetic on
naturals followed by one rounding, and nothing here goes through machine floats.
-/
namespace LeasedWork.Number

/-- A double-precision number, given by its bits. -/
structure Double where
  bits : UInt64
  deriving DecidableEq, Inhabited, Repr

namespace Double

/-- The bits without the sign: exponent field above, fraction field below. -/
def magnitudeBits (d : Double) : Nat := d.bits.toNat % twoTo 63

def isNegative (d : Double) : Bool := twoTo 63 ≤ d.bits.toNat

def exponentField (d : Double) : Nat := d.magnitudeBits / twoTo 52

def fractionField (d : Double) : Nat := d.magnitudeBits % twoTo 52

/-- Neither infinite nor a NaN. -/
def isFinite (d : Double) : Bool := d.exponentField < 2047

/-- The largest exponent with a fraction that is not zero: not a number. -/
def isNaN (d : Double) : Bool := d.exponentField = 2047 && d.fractionField ≠ 0

/-- The significand, with the hidden bit of a normal number. -/
def significand (d : Double) : Nat :=
  if d.exponentField = 0 then d.fractionField else twoTo 52 + d.fractionField

/-- The power of two that one unit of the significand has above the least one. -/
def scale (d : Double) : Nat := d.exponentField - 1

/-- The magnitude of a finite double, counted in the least positive doubles. -/
def units (d : Double) : Nat := d.significand * twoTo d.scale

/-- How many least positive doubles make one. -/
def unitsPerOne : Nat := twoTo 1074

/-- The bits of positive infinity; every finite magnitude is below them. -/
def infiniteBits : Nat := 2047 * twoTo 52

/-- The double of a sign and magnitude bits. -/
def ofMagnitudeBits (negative : Bool) (magnitude : Nat) : Double :=
  ⟨UInt64.ofNat (magnitude + if negative then twoTo 63 else 0)⟩

def infinity : Double := ofMagnitudeBits false infiniteBits

def nan : Double := ⟨0x7FF8000000000000⟩

def negate (d : Double) : Double := ofMagnitudeBits (!d.isNegative) d.magnitudeBits

/-- The magnitude bits nearest to `num / den`. Leaving out the low `shift` bits of the number of
units keeps 53 of them; the carry of a rounding up moves into the exponent field by itself. -/
def nearestBits (num den : Nat) : Nat :=
  let scaled := num * unitsPerOne
  let shift := (scaled / den).log2 - 52
  min infiniteBits (shift * twoTo 52 + nearest scaled (den * twoTo shift))

/-- The double nearest to the ratio `num / den`, ties to the even significand. -/
def ofRatio (num den : Nat) : Double := ofMagnitudeBits false (nearestBits num den)

def ofNat (n : Nat) : Double := ofRatio n 1

/-- The rounded sum of two doubles that are finite and not negative. -/
def add (a b : Double) : Double := ofRatio (a.units + b.units) unitsPerOne

/-- The rounded product of two doubles that are finite and not negative. -/
def mul (a b : Double) : Double := ofRatio (a.units * b.units) (unitsPerOne * unitsPerOne)

/-- The rounded quotient of two doubles that are finite and not negative, the second not zero. -/
def div (a b : Double) : Double := ofRatio a.units b.units

/-- Whether a double is a zero of either sign. -/
def isZero (d : Double) : Bool := d.magnitudeBits = 0

/-- Above zero; a NaN is not. -/
def isPositive (d : Double) : Bool := !d.isNegative && !d.isZero && !d.isNaN

def toHex (d : Double) : String :=
  String.ofList ((List.range 16).map fun i => Text.hexDigit (d.bits.toNat / Nat.pow 16 (15 - i) % 16))

end Double

end LeasedWork.Number
