import LeasedWork.Number.Double

/-!
# Shortest decimal text of a double

A double is written with the fewest digits that read back as the same double, and of those with
the digits nearest to it. The search runs over decimal grids of one to seventeen digits in exact
arithmetic; how the digits are laid out is a separate record, because diagnostics and log lines
disagree about it.
-/
namespace LeasedWork.Number

open Text (digitsOf)

/-- The number `digits · 10 ^ exponent`. -/
structure Decimal where
  digits : Nat
  exponent : Int
  deriving DecidableEq, Repr

namespace Double

/-- The reals that round to a finite double, in quarters of the least positive double. -/
structure Basin where
  low : Nat
  value : Nat
  high : Nat
  /-- The ends belong to the basin when the significand is even. -/
  closed : Bool

/-- The basin of a double. Below a power of two the neighbour is only half as far away. -/
def basin (d : Double) : Basin where
  low := 4 * d.units - (if d.fractionField = 0 ∧ 1 < d.exponentField then 1 else 2) * twoTo d.scale
  value := 4 * d.units
  high := 4 * d.units + 2 * twoTo d.scale
  closed := d.significand % 2 = 0

/-- Whether a point lies in a basin, all scaled alike. -/
def Basin.holds (b : Basin) (scale point : Nat) : Bool :=
  if b.closed then b.low * scale ≤ point && point ≤ b.high * scale
  else b.low * scale < point && point < b.high * scale

/-- The exponent of the first decimal digit of a positive finite double. -/
def leadingExponent (d : Double) : Int :=
  (Nat.toDigits 10 (d.units * tenTo 400 / unitsPerOne)).length - 401

/-- The point of the grid of the powers `10 ^ exponent` that reads back as the double, if there
is one. Only the two neighbours of the double can be nearest to it. -/
def onGrid? (d : Double) (exponent : Int) : Option Decimal :=
  let scale := tenTo (-exponent).toNat
  let step := 4 * unitsPerOne * tenTo exponent.toNat
  let value := d.basin.value * scale
  let below := value / step
  let above := below + 1
  let holds (n : Nat) : Bool := d.basin.holds scale (n * step)
  match holds below, holds above with
  | false, false => none
  | true, false => some ⟨below, exponent⟩
  | false, true => some ⟨above, exponent⟩
  | true, true =>
    let down := value - below * step
    let up := above * step - value
    if down < up ∨ (down = up ∧ below % 2 = 0) then some ⟨below, exponent⟩
    else some ⟨above, exponent⟩

/-- A decimal without zeros at its end; the first argument bounds their number. -/
def stripZeros : Nat → Decimal → Decimal
  | 0, d => d
  | n + 1, d => if d.digits ≠ 0 ∧ d.digits % 10 = 0 then stripZeros n ⟨d.digits / 10, d.exponent + 1⟩ else d

/-- The shortest decimal of a positive finite double. Seventeen digits always suffice. -/
def shortest (d : Double) : Decimal :=
  let lead := d.leadingExponent
  match (List.range 17).findSome? fun (n : Nat) => d.onGrid? (lead - n) with
  | some decimal => stripZeros 20 decimal
  | none => ⟨0, 0⟩

end Double

/-- How the digits of a double are laid out. The point stands `place` digits after the start of
the number; between the two bounds it is written in place, outside them with an exponent. -/
structure Layout where
  /-- The greatest place that still needs an exponent for a small number. -/
  tiny : Int
  /-- The greatest place written without an exponent. -/
  wide : Int
  /-- Whether an exponent that is not negative is written with its sign. -/
  plus : Bool

def Layout.payload : Layout := ⟨-5, 16, true⟩

def Layout.log : Layout := ⟨-4, 16, false⟩

def Layout.write (layout : Layout) (d : Decimal) : List Char :=
  let ds := digitsOf d.digits
  let place : Int := ds.length + d.exponent
  if layout.tiny < place ∧ place ≤ layout.wide then
    if place ≤ 0 then '0' :: '.' :: (List.replicate (-place).toNat '0' ++ ds)
    else if ds.length ≤ place then
      ds ++ List.replicate (place - ds.length).toNat '0' ++ ['.', '0']
    else ds.take place.toNat ++ '.' :: ds.drop place.toNat
  else
    let power := place - 1
    let mantissa := match ds with
      | first :: second :: rest => first :: '.' :: second :: rest
      | _ => ds
    let sign := if power < 0 then ['-'] else if layout.plus then ['+'] else []
    mantissa ++ 'e' :: (sign ++ digitsOf power.natAbs)

def Double.text (layout : Layout) (d : Double) : List Char :=
  (if d.isNegative then ['-'] else []) ++
    if d.isZero then ['0', '.', '0'] else layout.write d.shortest

end LeasedWork.Number
