import LeasedWork.Engine.Action
import LeasedWork.Failure

/-!
# Handlers

A handler is known by what it does: sleep, wait for its token, act on the host, and end with an
outcome or a panic. Each invocation follows the next entry of its script, the last one again and
again. One handler is built in: it answers an empty object unless it is cancelled already.
-/
namespace LeasedWork.Engine

/-- One step of an invocation. -/
inductive Step where
  /-- Sleeps so many milliseconds without regard to the token. -/
  | sleep (ms : Nat)
  /-- Sleeps unless the token is cancelled, and then gives up. -/
  | sleepOrCancel (ms : Nat)
  /-- Waits until the token is cancelled. -/
  | waitCancel
  | act (action : Action)
  deriving Inhabited, Repr

/-- How an invocation ends. -/
inductive Ending where
  | returns (outcome : Outcome)
  /-- Returns the definition of the job. -/
  | echo
  /-- Panics with a message, or with none that can be read. -/
  | panics (message : Option String)
  deriving Inhabited, Repr

/-- What one invocation does. -/
structure Turn where
  steps : List Step
  ending : Ending
  deriving Inhabited, Repr

/-- A handler. -/
inductive Handler where
  | noop
  /-- The number tells scripts apart. -/
  | scripted (key : Nat) (name : String) (turns : List Turn)
  deriving Inhabited, Repr

namespace Handler

def emptyObject : String := "\x7b\x7d"

/-- The name that an invocation goes by, if it leaves a trace. -/
def name? : Handler → Option String
  | noop => none
  | scripted _ name _ => some name

/-- What the n-th invocation does, counted from zero. -/
def turn (n : Nat) : Handler → Turn
  | noop => ⟨[], .returns (.ok emptyObject)⟩
  | scripted _ _ turns => (turns[n]?).getD (turns.getLastD ⟨[], .returns (.ok "")⟩)

end Handler

/-- The outcome that stands for a panic. -/
def panicOutcome (message : Option String) : Outcome :=
  .error (.unclassified (.ofMessage
    ("job handler panicked: " ++ message.getD "unknown panic payload")))

/-- The outcome of an ending for a job. -/
def Ending.outcome (job : Job) : Ending → Outcome
  | returns outcome => outcome
  | echo => .ok (job.definition.getD "")
  | panics message => panicOutcome message

end LeasedWork.Engine
