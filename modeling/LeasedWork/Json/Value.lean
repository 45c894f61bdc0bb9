import LeasedWork.Number.Double

/-!
# JSON values

The values that job definitions hold and failures report. An integer stays exact when a signed or
an unsigned 64-bit word holds it; every other number is a double. An object keeps one member per
name, in the order of the names.
-/
namespace LeasedWork.Json

open Number (Double twoTo)

/-- A number of a JSON text. -/
inductive Numeral where
  | integer (n : Int)
  | real (d : Double)
  deriving DecidableEq, Inhabited, Repr

/-- A JSON value. -/
inductive Value where
  | null
  | bool (b : Bool)
  | number (n : Numeral)
  | string (s : String)
  | array (items : List Value)
  | object (members : List (String × Value))
  deriving Inhabited, Repr

/-- Whether a signed 64-bit word holds an integer. -/
def isSigned64 (n : Int) : Bool := -(twoTo 63 : Int) ≤ n && n < twoTo 63

/-- Puts a member into an object: a new name goes to its place in the order, a known one gets the
new value. -/
def setMember (name : String) (value : Value) :
    List (String × Value) → List (String × Value)
  | [] => [(name, value)]
  | (key, old) :: rest =>
    if name < key then (name, value) :: (key, old) :: rest
    else if name = key then (name, value) :: rest
    else (key, old) :: setMember name value rest

/-- The value of the member of a name. -/
def Value.member? (name : String) : Value → Option Value
  | .object members => (members.find? (·.1 = name)).map (·.2)
  | _ => none

/-- An integer that a signed 64-bit word holds. -/
def Value.integer? : Value → Option Int
  | .number (.integer n) => if isSigned64 n then some n else none
  | _ => none

end LeasedWork.Json
