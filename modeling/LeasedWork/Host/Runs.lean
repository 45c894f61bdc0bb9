import LeasedWork.Engine.Execution

/-!
# Runs of single jobs

Jobs can be leased and executed one after the other without a pool. A run may be dropped when it
takes too long; then its handler goes no further and its heartbeats stop.
-/
namespace LeasedWork.Host

open Engine

/-- What a run does: wait, perhaps ask for shutdown, lease a job, perhaps change the record, and
execute it. -/
structure RunPlan where
  /-- Milliseconds to wait before. -/
  delay : Nat
  /-- Whether to ask for shutdown first. -/
  shutdown : Bool
  queue : Queue
  worker : String
  overrides : Overrides
  /-- The milliseconds after which the run is dropped. -/
  patience : Option Nat
  deriving Inhabited, Repr

/-- What a run came to. -/
inductive RunResult where
  /-- There was no job to lease. -/
  | noJob
  | dropped
  | finished (result : ExecutionResult)
  deriving DecidableEq, Inhabited, Repr

/-- What the task of the runs is doing. -/
inductive RunsPhase where
  /-- About to begin the next run. -/
  | between
  /-- The delay of the next run is over. -/
  | ready
  /-- Executing a job that waits for something, up to a time. -/
  | executing (execution : Execution) (wait : Option Wait) (deadline : Option Nat)
  deriving Inhabited, Repr

/-- The runs still to be done, and the results of the others. -/
structure Runs where
  pending : List RunPlan
  phase : RunsPhase
  /-- The last result first. -/
  results : List (Nat × RunResult)
  deriving Inhabited, Repr

namespace Runs

def ofList (plans : List RunPlan) : Runs := ⟨plans, .between, []⟩

def isOver (r : Runs) : Bool := r.pending.isEmpty

/-- Keeps the result of the run under way. -/
def finish (s : Site) (r : Runs) (result : RunResult) : Progress Runs Unit × Site :=
  (.more ⟨r.pending.tail, .between, (s.clock, result) :: r.results⟩, s)

def begin (s : Site) (r : Runs) (plan : RunPlan) : Progress Runs Unit × Site :=
  let s := if plan.shutdown then s.cancel s.shutdown else s
  let (answer, s) := s.askDequeue ⟨plan.queue, plan.worker, Store.defaultTimeout, none, false⟩ false
  match answer, Site.leasedJob? answer with
  | none, _ => (.crash, s)
  | some _, none => finish s r .noJob
  | some _, some job =>
    let execution := Execution.fresh (plan.overrides.apply job) s.shutdown
    let deadline := plan.patience.map fun ms => s.after (.ofMillis ms)
    (.more { r with phase := .executing execution none deadline }, s)

/-- Waits on behalf of an execution, but not past the time at which it is dropped. -/
def waitFor (w : Wait) : Option Nat → Wait
  | none => w
  | some deadline => .either w (.time deadline)

/-- One move of the task of the runs. -/
def step (s : Site) (r : Runs) : Progress Runs Unit × Site :=
  match r.pending with
  | [] => (.wait .never r, s)
  | plan :: _ =>
    match r.phase with
    | .between =>
      if plan.delay = 0 then (.more { r with phase := .ready }, s)
      else (.wait (.time (s.afterSleep (.ofMillis plan.delay))) { r with phase := .ready }, s)
    | .ready => begin s r plan
    | .executing x wait deadline =>
      if wait.all (·.isOver s) then
        let (progress, s) := x.step s
        match progress with
        | .more x => (.more { r with phase := .executing x none deadline }, s)
        | .wait w x =>
          (.wait (waitFor w deadline) { r with phase := .executing x (some w) deadline }, s)
        | .crash => (.crash, s)
        | .done result => finish s r (.finished result)
      else finish (x.drop s) r .dropped

end Runs

end LeasedWork.Host
