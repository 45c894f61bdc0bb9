import LeasedWork.LogLine
import LeasedWork.Number.Literal
import LeasedWork.Text.Pattern.Reader

/-!
# Tests of fields

A test names a field and may ask for a value. A truth value and a number are met by themselves
alone, every other text is a pattern for fields that are texts. No field is a fraction, so none
meets a test for one.
-/
namespace LeasedWork

/-- What the value of a field has to be. -/
inductive ValueTest where
  | bool (b : Bool)
  | integer (n : Int)
  | fraction
  /-- A text that reads as a pattern. -/
  | pattern (text : List Char)
  deriving DecidableEq, Inhabited, Repr

namespace ValueTest

/-- The number that an optional sign and digits denote, within the range of 64 bits. -/
def integer? : List Char → Option Int
  | '-' :: digits =>
    ((Number.digits? digits).filter (· ≤ Number.twoTo 63)).map fun n => -(n : Int)
  | text => (Number.count? text).map Int.ofNat

/-- The test that a text stands for, unless it is a pattern that cannot be read. -/
def read? (text : List Char) : Option ValueTest :=
  if text = "true".toList then some (bool true)
  else if text = "false".toList then some (bool false)
  else
    match integer? text with
    | some n => some (integer n)
    | none =>
      if (Number.decimal? text).isSome then some fraction
      else (Text.Pattern.read? text).map fun _ => pattern text

def accepts : ValueTest → FieldValue → Bool
  | bool a, .bool b => a = b
  | integer m, .integer n => m = n
  | pattern p, .text s | pattern p, .quoted s =>
    (Text.Pattern.read? p).any fun p => p.endsIn s.toList
  | _, _ => false

end ValueTest

/-- A field that has to be there, perhaps with a value. -/
structure FieldTest where
  name : List Char
  value : Option ValueTest
  deriving DecidableEq, Inhabited, Repr

namespace FieldTest

/-- The test that a text stands for: a name, perhaps an equals sign and a value, and perhaps
another equals sign and something that does not matter. -/
def read? (text : List Char) : Option FieldTest :=
  match Text.pieces '=' text with
  | name :: value :: _ => (ValueTest.read? value).map fun test => ⟨name, some test⟩
  | name :: _ => some ⟨name, none⟩
  | [] => none

def passes (test : FieldTest) (fields : List (String × FieldValue)) : Bool :=
  match fields.find? fun field => field.1.toList = test.name with
  | none => false
  | some field => test.value.all fun value => value.accepts field.2

end FieldTest

end LeasedWork
