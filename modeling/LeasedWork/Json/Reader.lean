import LeasedWork.Json.Tree
import LeasedWork.Json.Value
import LeasedWork.Number.Literal

/-!
# Reading JSON

The meaning of a text of which the shape is known. Strings must not name half a surrogate pair.
A number whose digits do not fit 64 bits, or that has a point or an exponent, is a double: its
leading digits make an integer, which is then multiplied or divided by a power of ten, with a
rounding at each of the two steps. Arrays and objects nest at most 127 deep.
-/
namespace LeasedWork.Json

open Number (Double twoTo tenTo)
open Text (digitsValue hexValue?)

/-- The character that a letter after a backslash names. -/
def escapedChar (letter : Char) : Char :=
  if letter = 'b' then '\x08'
  else if letter = 'f' then '\x0c'
  else if letter = 'n' then '\n'
  else if letter = 'r' then '\r'
  else if letter = 't' then '\t'
  else letter

def hexQuad (a b c d : Char) : Nat :=
  [a, b, c, d].foldl (fun n x => 16 * n + (hexValue? x).getD 0) 0

/-- Whether a number is the first half of a surrogate pair. -/
def isHighHalf (n : Nat) : Bool := 0xD800 ≤ n && n < 0xDC00

/-- Whether a number is the second half of a surrogate pair. -/
def isLowHalf (n : Nat) : Bool := 0xDC00 ≤ n && n < 0xE000

/-- The characters that the body of a string denotes. -/
def decodeBody : List Char → Option (List Char)
  | [] => some []
  | '\\' :: 'u' :: a :: b :: c :: d :: rest =>
    let first := hexQuad a b c d
    if isLowHalf first then none
    else if isHighHalf first then
      match rest with
      | '\\' :: 'u' :: e :: f :: g :: h :: rest' =>
        let second := hexQuad e f g h
        if isLowHalf second then
          (decodeBody rest').map
            (Char.ofNat (0x10000 + (first - 0xD800) * 0x400 + (second - 0xDC00)) :: ·)
        else none
      | _ => none
    else (decodeBody rest).map (Char.ofNat first :: ·)
  | '\\' :: letter :: rest => (decodeBody rest).map (escapedChar letter :: ·)
  | c :: rest => (decodeBody rest).map (c :: ·)

/-- Digits taken into a 64-bit significand while they fit: the significand, how many digits were
taken, and how many were left. -/
def takeDigits (significand taken : Nat) : List Char → Nat × Nat × Nat
  | [] => (significand, taken, 0)
  | c :: rest =>
    let next := 10 * significand + (c.toNat - '0'.toNat)
    if next < twoTo 64 then takeDigits next (taken + 1) rest
    else (significand, taken, rest.length + 1)

/-- The double nearest to a power of ten; up to 308 it is finite. -/
def powerOfTen (n : Nat) : Double := Double.ofNat (tenTo n)

/-- Divides by a power of ten, in steps that a double can hold. -/
def shrink (d : Double) (power : Nat) : Double :=
  if power ≤ 308 then d.div (powerOfTen power)
  else if d.isZero then d
  else shrink (d.div (powerOfTen 308)) (power - 308)
termination_by power

/-- A significand times a power of ten; fails where that is infinite. -/
def scaled? (significand : Nat) (exponent : Int) : Option Double :=
  let d := Double.ofNat significand
  if exponent < 0 then some (shrink d exponent.natAbs)
  else if 308 < exponent then if d.isZero then some d else none
  else
    let product := d.mul (powerOfTen exponent.toNat)
    if product.isFinite then some product else none

def Lexeme.power (l : Lexeme) : Int :=
  match l.exponent with
  | none => 0
  | some (true, digits) => -(digitsValue digits : Int)
  | some (false, digits) => digitsValue digits

def Lexeme.numeral? (l : Lexeme) : Option Numeral :=
  let (whole, _, excess) := takeDigits 0 0 l.whole
  let signed (d : Double) : Numeral := .real (if l.negative then d.negate else d)
  if excess = 0 ∧ l.fraction = none ∧ l.exponent = none then
    if l.negative then
      if whole = 0 ∨ twoTo 63 < whole then some (signed (Double.ofNat whole))
      else some (.integer (-(whole : Int)))
    else some (.integer whole)
  else
    let (significand, taken, _) := takeDigits whole 0 (l.fraction.getD [])
    (scaled? significand (l.power + excess - taken)).map signed

mutual

def Tree.value? : Tree → Option Value
  | .null => some .null
  | .bool b => some (.bool b)
  | .number lexeme => lexeme.numeral?.map .number
  | .string body => (decodeBody body).map fun cs => .string (String.ofList cs)
  | .array items => (itemValues? items).map .array
  | .object members => (memberValues? members []).map .object

/-- The values of the items of an array. -/
def itemValues? : List Tree → Option (List Value)
  | [] => some []
  | tree :: rest => do
    let value ← tree.value?
    let values ← itemValues? rest
    pure (value :: values)

/-- The members of an object added to those before them. -/
def memberValues? : List (List Char × Tree) → List (String × Value) →
    Option (List (String × Value))
  | [], members => some members
  | (name, tree) :: rest, members => do
    let key ← decodeBody name
    let value ← tree.value?
    memberValues? rest (setMember (String.ofList key) value members)

end

/-- How deep the arrays and objects of a value may nest. -/
def depthLimit : Nat := 127

def Value.read? (text : String) : Option Value :=
  (Tree.read? depthLimit text.toList).bind Tree.value?

end LeasedWork.Json
