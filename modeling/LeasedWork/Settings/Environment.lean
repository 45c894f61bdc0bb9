/-!
# The environment

Settings come from variables whose values are byte strings. A value that is not valid text is
treated as if the variable were not set.
-/
namespace LeasedWork

/-- Variables and their values; the first binding of a name counts. -/
structure Environment where
  bindings : List (String × ByteArray)
  deriving Inhabited

namespace Environment

def empty : Environment := ⟨[]⟩

def bytes? (env : Environment) (name : String) : Option ByteArray := env.bindings.lookup name

/-- The text of a variable that is set to valid text. -/
def text? (env : Environment) (name : String) : Option String :=
  (env.bytes? name).bind String.fromUTF8?

/-- The environment with a variable set, unless it is set to valid text already. -/
def setDefault (env : Environment) (name value : String) : Environment :=
  if (env.text? name).isSome then env else ⟨(name, value.toUTF8) :: env.bindings⟩

end Environment

end LeasedWork
