import LeasedWork.Json.Reader

/-!
# Reading typed members

A typed record is read from an object whose members come in any order, or from an array of exactly
its members in their order. A member that the record does not have is passed over; one that it has
may come only once. Names of constants are written as a string, or as the only member of an object
with the value null.
-/
namespace LeasedWork.Json

def Tree.string? : Tree → Option String
  | .string body => (decodeBody body).map String.ofList
  | _ => none

def Tree.bool? : Tree → Option Bool
  | .bool b => some b
  | _ => none

/-- An integer that a signed 64-bit word holds. -/
def Tree.integer? : Tree → Option Int
  | .number lexeme => lexeme.numeral?.bind fun n => (Value.number n).integer?
  | _ => none

/-- Null, or what a reader makes of the value. -/
def Tree.optional? {α : Type} (read : Tree → Option α) : Tree → Option (Option α)
  | .null => some none
  | tree => (read tree).map some

def Tree.constant? {α : Type} (named : List Char → Option α) : Tree → Option α
  | .string body => (decodeBody body).bind named
  | .object [(name, .null)] => (decodeBody name).bind named
  | _ => none

/-- The members of an object that have one of the given names, if all names of the object can be
read and none of the given ones comes twice. -/
def knownMembers? (names : List String) :
    List (List Char × Tree) → Option (List (String × Tree))
  | [] => some []
  | (body, tree) :: rest => do
    let name := String.ofList (← decodeBody body)
    let others ← knownMembers? names rest
    if name ∈ names then
      if others.any (·.1 = name) then none else some ((name, tree) :: others)
    else some others

/-- The members of a record by name, from an object or from an array of them all. -/
def Tree.members? (names : List String) : Tree → Option (List (String × Tree))
  | .object members => knownMembers? names members
  | .array items => if items.length = names.length then some (names.zip items) else none
  | _ => none

def required? {α : Type} (read : Tree → Option α) (name : String)
    (members : List (String × Tree)) : Option α :=
  (members.lookup name).bind read

/-- A member that may be missing or null. -/
def absentable? {α : Type} (read : Tree → Option α) (name : String)
    (members : List (String × Tree)) : Option (Option α) :=
  match members.lookup name with
  | none => some none
  | some tree => tree.optional? read

end LeasedWork.Json
