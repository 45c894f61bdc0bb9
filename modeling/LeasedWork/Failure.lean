import LeasedWork.Diagnostic
import LeasedWork.Error
import LeasedWork.Json.Writer

/-!
# Failures of handlers

A handler that does not succeed says how: for good, for now, because it was cancelled, or in a way
that nobody classified. The kind decides what becomes of the job; the payload is what the
submitter reads in the job's result.
-/
namespace LeasedWork

open Json (Value writeString)

/-- How the execution of a job failed. -/
inductive Failure where
  /-- The job is not to be retried. -/
  | failed (error : Value) (byCustomer : Bool)
  /-- The store applies its retry policy. -/
  | softFailed (error : Value) (byCustomer : Bool)
  /-- The handler saw its token cancelled. -/
  | cancelled
  /-- Anything else, which counts as a failure for good. -/
  | unclassified (diagnostic : Diagnostic)
  deriving Inhabited, Repr

/-- What a submitter reads about an unclassified failure. -/
structure FailureReport where
  message : String
  trace : String
  deriving DecidableEq, Inhabited, Repr

namespace FailureReport

def ofDiagnostic (d : Diagnostic) : FailureReport := ⟨d.message, d.report⟩

def write (r : FailureReport) : List Char :=
  "\x7b\"message\":".toList ++ writeString r.message ++ ",\"stack_trace\":".toList ++
    writeString r.trace ++ ['\x7d']

end FailureReport

namespace Failure

/-- An error of the library met by a handler. -/
def ofError (e : Error) : Failure := .unclassified (.ofMessage e.message)

/-- Marks a hard or a soft failure as brought about by the customer's input. -/
def causedByCustomer : Failure → Failure
  | failed error _ => failed error true
  | softFailed error _ => softFailed error true
  | other => other

/-- Whether a failure was brought about by the customer's input. -/
def isByCustomer : Failure → Bool
  | failed _ byCustomer | softFailed _ byCustomer => byCustomer
  | cancelled | unclassified _ => false

def message : Failure → String
  | failed error _ => "job failed: " ++ error.text
  | softFailed error _ => "job soft failed: " ++ error.text
  | cancelled => "job cancelled"
  | unclassified d => d.message

/-- The text stored as the result of a job that failed so, if any. -/
def payload? : Failure → Option String
  | failed error _ | softFailed error _ => some error.text
  | unclassified d => some (String.ofList (FailureReport.ofDiagnostic d).write)
  | cancelled => none

/-- The wording in the log: an unclassified failure is reported at full length. -/
def logText : Failure → String
  | unclassified d => "Unclassified(" ++ d.report ++ ")"
  | other => other.message

theorem payload?_causedByCustomer (f : Failure) : f.causedByCustomer.payload? = f.payload? := by
  cases f <;> rfl

end Failure

/-- What a handler came to: the text of its result, or a failure. -/
abbrev Outcome := Except Failure String

/-- The text stored as the result of a job that came to an outcome. -/
def Outcome.result? : Outcome → Option String
  | .ok text => some text
  | .error failure => failure.payload?

end LeasedWork
