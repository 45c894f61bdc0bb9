import LeasedWork.Text.Digits

/-!
# Errors

Every way in which an operation of the library can fail on its own account, with the wording that
callers and log lines see.
-/
namespace LeasedWork

/-- Why an operation failed. -/
inductive Error where
  /-- A call of the store failed. -/
  | queue (text : String)
  | notFound (id : Int)
  /-- Another worker holds the job. -/
  | versionConflict (id expected actual : Int)
  | serialization (text : String)
  | config (text : String)
  | invalidInput (text : String)
  | internal (text : String)
  deriving DecidableEq, Inhabited, Repr

def decimalText (n : Int) : String := String.ofList (Text.digitsOfInt n)

def Error.message : Error → String
  | .queue text => "Queue error: " ++ text
  | .notFound id => "Job not found: " ++ decimalText id
  | .versionConflict id expected actual =>
    "Version conflict for job " ++ decimalText id ++ ": expected " ++ decimalText expected ++
      ", found " ++ decimalText actual
  | .serialization text => "Serialization error: " ++ text
  | .config text => "Configuration error: " ++ text
  | .invalidInput text => "Invalid input: " ++ text
  | .internal text => "Internal error: " ++ text

end LeasedWork
