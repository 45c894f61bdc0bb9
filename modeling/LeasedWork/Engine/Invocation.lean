import LeasedWork.Engine.Progress

/-!
# Invocations of handlers

One invocation of a handler goes through the steps of its turn under the token of its execution
and comes to an outcome. A panic is an outcome like any other here, because the execution catches
it.
-/
namespace LeasedWork.Engine

/-- What an invocation is doing. -/
inductive InvocationPhase where
  /-- About to do its next step. -/
  | ready
  /-- In a sleep that a cancellation ends. -/
  | cancellableSleep
  deriving DecidableEq, Inhabited, Repr

/-- An invocation of a handler. -/
structure Invocation where
  /-- The name of the handler, if it leaves a trace. -/
  name : Option String
  job : Job
  token : Token
  steps : List Step
  ending : Ending
  phase : InvocationPhase
  deriving Inhabited, Repr

namespace Invocation

/-- Leaves a trace of a handler that has a name. -/
def mark (s : Site) (i : Invocation) (entry : String → Int → Trace) : Site :=
  match i.name with
  | some name => s.note (entry name i.job.id)
  | none => s

/-- Leaves a trace of the start of a handler. -/
def markStart (s : Site) (i : Invocation) : Site :=
  i.mark s fun name id => .started name id (s.isCancelled i.token)

/-- Leaves a trace of the end of a handler. -/
def markEnd (s : Site) (i : Invocation) : Site :=
  i.mark s fun name id => .finished name id (s.isCancelled i.token)

def start (s : Site) (handler : Handler) (job : Job) (token : Token) : Invocation × Site :=
  match handler with
  | .noop =>
    let outcome : Outcome :=
      if s.isCancelled token then .error .cancelled else .ok Handler.emptyObject
    (⟨none, job, token, [], .returns outcome, .ready⟩, s)
  | .scripted key name _ =>
    let turn := handler.turn (s.invocationsOf key)
    let i : Invocation := ⟨some name, job, token, turn.steps, turn.ending, .ready⟩
    (i, i.markStart (s.countInvocation key))

def step (s : Site) (i : Invocation) : Progress Invocation Outcome × Site :=
  match i.phase with
  | .cancellableSleep =>
    if s.isCancelled i.token then (.done (.error .cancelled), i.mark s .gaveUp)
    else (.more { i with phase := .ready }, s)
  | .ready =>
    match i.steps with
    | [] => (.done (i.ending.outcome i.job), i.markEnd s)
    | .sleep ms :: rest =>
      (.wait (.time (s.afterSleep (.ofMillis ms))) { i with steps := rest }, s)
    | .sleepOrCancel ms :: rest =>
      (.wait (.untilOrCancel (s.afterSleep (.ofMillis ms)) i.token)
        { i with steps := rest, phase := .cancellableSleep }, s)
    | .waitCancel :: rest => (.wait (.cancel i.token) { i with steps := rest }, s)
    | .act action :: rest =>
      match s.act action with
      | (.crashed fault, s) => (.done (panicOutcome (some fault.message)), s)
      | (_, s) => (.more { i with steps := rest }, s)

end Invocation

end LeasedWork.Engine
