import LeasedWork.Number.Double

/-!
# Number literals in settings

Two grammars for the values of settings. A count is an optional plus sign and decimal digits; a
decimal literal has in addition a sign of either kind, a point and an exponent, and may name
infinity or a NaN. Both admit ASCII digits only.
-/
namespace LeasedWork.Number

open Text (isDigit digitsValue)

def countLimit : Nat := twoTo 64

/-- A run of digits: at least one, and nothing else. -/
def digits? (cs : List Char) : Option Nat :=
  if cs ≠ [] ∧ cs.all isDigit then some (digitsValue cs) else none

/-- Why a text is not a count. -/
inductive CountFault where
  | empty
  | badDigit
  | tooLarge
  deriving DecidableEq, Inhabited, Repr

def CountFault.message : CountFault → String
  | empty => "cannot parse integer from empty string"
  | badDigit => "invalid digit found in string"
  | tooLarge => "number too large to fit in target type"

/-- Reads the rest of a count after the digits that denote `n`; the first fault from the left
decides. -/
def readDigitsFrom (n : Nat) : List Char → Except CountFault Nat
  | [] => .ok n
  | c :: rest =>
    if isDigit c then
      let next := 10 * n + (c.toNat - '0'.toNat)
      if next < countLimit then readDigitsFrom next rest else .error .tooLarge
    else .error .badDigit

/-- A count: an optional plus sign and at least one digit. -/
def readCount : List Char → Except CountFault Nat
  | [] => .error .empty
  | ['+'] => .error .badDigit
  | '+' :: rest => readDigitsFrom 0 rest
  | cs => readDigitsFrom 0 cs

def count? (cs : List Char) : Option Nat := (readCount cs).toOption

/-- The text of a decimal literal split into its parts. -/
structure DecimalParts where
  whole : List Char
  fraction : List Char
  exponent : Int
  deriving DecidableEq, Repr

/-- The sign of a literal and what follows it. -/
def signed : List Char → Bool × List Char
  | '+' :: rest => (false, rest)
  | '-' :: rest => (true, rest)
  | cs => (false, cs)

/-- The exponent part of a decimal literal: nothing, or a mark and a signed run of digits. -/
def exponent? : List Char → Option Int
  | [] => some 0
  | mark :: rest =>
    if mark = 'e' ∨ mark = 'E' then
      let (negative, body) := signed rest
      (digits? body).map fun n => if negative then -(n : Int) else n
    else none

/-- The parts of an unsigned decimal literal; a digit must stand on one side of the point. -/
def decimalParts? (cs : List Char) : Option DecimalParts :=
  let whole := cs.takeWhile isDigit
  let rest := cs.dropWhile isDigit
  let (fraction, tail) := match rest with
    | '.' :: after => (after.takeWhile isDigit, after.dropWhile isDigit)
    | _ => ([], rest)
  if whole = [] ∧ fraction = [] then none
  else (exponent? tail).map fun e => ⟨whole, fraction, e⟩

/-- Past this power of ten in either direction every literal is zero or infinite. -/
def exponentReach : Int := 400

/-- The magnitude bits of `significand · 10 ^ exponent`, where the significand has `width`
digits. Far outside the range of doubles the power is not computed. -/
def decimalBits (significand width : Nat) (exponent : Int) : Nat :=
  if significand = 0 then 0
  else if exponentReach < exponent + width then Double.infiniteBits
  else if exponent + width < -exponentReach then 0
  else if 0 ≤ exponent then Double.nearestBits (significand * tenTo exponent.toNat) 1
  else Double.nearestBits significand (tenTo (-exponent).toNat)

/-- The magnitude bits of a decimal literal, correctly rounded. -/
def DecimalParts.magnitudeBits (p : DecimalParts) : Nat :=
  let digits := (p.whole ++ p.fraction).dropWhile (· = '0')
  decimalBits (digitsValue digits) digits.length (p.exponent - p.fraction.length)

/-- A name with its ASCII capitals made small. -/
def lowered (cs : List Char) : List Char := cs.map Char.toLower

/-- A decimal literal, or the name of infinity or of a NaN in any case. -/
def decimal? (cs : List Char) : Option Double :=
  let (negative, body) := signed cs
  let name := lowered body
  if name = "inf".toList ∨ name = "infinity".toList then
    some (Double.ofMagnitudeBits negative Double.infiniteBits)
  else if name = "nan".toList then some Double.nan
  else (decimalParts? body).map fun p => Double.ofMagnitudeBits negative p.magnitudeBits

end LeasedWork.Number
