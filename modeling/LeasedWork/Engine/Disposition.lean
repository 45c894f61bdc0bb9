import LeasedWork.Failure
import LeasedWork.Status

/-!
# Dispositions

What is to become of a job whose handler has come to an outcome. Abandonment decides before
everything else; a handler that gave up because of shutdown leaves its job to the expiry of the
lease, and gets no disposition.
-/
namespace LeasedWork.Engine

/-- What is to become of an executed job. -/
inductive Disposition where
  | completed
  /-- A failure that is not retried. -/
  | failed
  /-- A failure to which the store applies its retry policy. -/
  | softFailed
  | cancelled
  deriving DecidableEq, Inhabited, Repr

namespace Disposition

def title : Disposition → String
  | completed => "Completed"
  | failed => "Failed"
  | softFailed => "SoftFailed"
  | cancelled => "Cancelled"

def status : Disposition → Status
  | completed => .completed
  | failed | softFailed => .failed
  | cancelled => .cancelled

/-- Whether storing the status is also a last sign of life; a soft failure is none. -/
def force : Disposition → Bool
  | softFailed => false
  | completed | failed | cancelled => true

/-- The disposition for an outcome. -/
def classify (outcome : Outcome) (abandoned shutdown : Bool) : Option Disposition :=
  if abandoned then some cancelled
  else
    match outcome with
    | .ok _ => some completed
    | .error .cancelled => if shutdown then none else some cancelled
    | .error (.failed _ _) => some failed
    | .error (.unclassified _) => some failed
    | .error (.softFailed _ _) => some softFailed

theorem isTerminal_status (d : Disposition) : d.status.isTerminal = true := by
  cases d <;> rfl

/-- Only a handler that gave up during shutdown gets no disposition. -/
theorem classify_eq_none_iff (outcome : Outcome) (abandoned shutdown : Bool) :
    classify outcome abandoned shutdown = none ↔
      outcome = .error .cancelled ∧ abandoned = false ∧ shutdown = true := by
  cases abandoned <;> cases shutdown <;> rcases outcome with (_ | _ | _ | _) | _ <;>
    simp [classify]

end Disposition

end LeasedWork.Engine
