import LeasedWork.Engine.Progress

/-!
# Heartbeats

While a handler runs, a task of its own tells the store that the lease is alive. Deadlines are one
period apart, counted from one to the next and not from the time a call happened to end; after a
call that outlasted a whole period the next deadline is a period after its end. The only effect a
heartbeat has on the execution is to abandon it.
-/
namespace LeasedWork.Engine

open Time (Duration)
open LogLine (jobField errorField)

/-- What a heartbeat task is doing. -/
inductive BeatPhase where
  /-- Not yet begun; the first deadline is this far away. -/
  | fresh (first : Duration)
  /-- Waiting for a deadline. -/
  | waiting (deadline : Nat)
  /-- Calling the store, the deadline having passed. -/
  | calling (deadline : Nat) (stage : CallStage)
  /-- Asked to stop. -/
  | stopped
  deriving DecidableEq, Inhabited, Repr

/-- A heartbeat task. -/
structure Heartbeat where
  record : Job
  period : Duration
  execution : Token
  phase : BeatPhase
  deriving Inhabited, Repr

namespace Heartbeat

/-- The least period. -/
def periodFloor : Duration := .ofMillis 10

/-- The period that a configured one comes to. -/
def effectivePeriod (period : Duration) : Duration := period.max periodFloor

/-- The task that starts with a first delay. -/
def fresh (record : Job) (period first : Duration) (execution : Token) : Heartbeat :=
  ⟨record, period, execution, .fresh first⟩

/-- The deadline after a call that ended at `now`. -/
def nextDeadline (period : Duration) (deadline now : Nat) : Nat :=
  let next := deadline + period.nanos
  if next < now then now + period.nanos else next

def target : String := "taskhost_jobs::heartbeat"

def react (s : Site) (h : Heartbeat) : Except Refusal Bool → Site
  | .ok true =>
    let (first, s) := s.abandon h.execution
    if first then
      s.writeLog ⟨.warn, target, "Heartbeat asked to abandon job, cancelling execution",
        [jobField h.record.id, ("queue_type", .text h.record.queue.name),
          ("version", .integer h.record.version)]⟩
    else s
  | .ok false => s.writeLog ⟨.debug, target, "Heartbeat accepted", [jobField h.record.id]⟩
  | .error refusal =>
    s.writeLog ⟨.debug, target, "Heartbeat failed",
      [jobField h.record.id, errorField refusal.toError.message]⟩

/-- A heartbeat task that does nothing more than end. -/
def stop (h : Heartbeat) : Heartbeat := { h with phase := .stopped }

/-- One move of a heartbeat task. It never ends by itself; when it does end, it lets go of the
token of the execution. -/
def step (s : Site) (h : Heartbeat) : Progress Heartbeat Unit × Site :=
  match h.phase with
  | .fresh first =>
    let deadline := s.after first
    (.wait (.time deadline) { h with phase := .waiting deadline }, s)
  | .waiting deadline => (.more { h with phase := .calling deadline .start }, s)
  | .calling deadline stage =>
    let (progress, s) := s.callHeartbeat stage h.record
    match progress with
    | .more stage => (.more { h with phase := .calling deadline stage }, s)
    | .wait w stage => (.wait w { h with phase := .calling deadline stage }, s)
    | .crash => (.crash, s.release h.execution)
    | .done answer =>
      let s := react s h answer
      let next := nextDeadline h.period deadline s.nanos
      (.wait (.time next) { h with phase := .waiting next }, s)
  | .stopped => (.done (), s.release h.execution)

end Heartbeat

end LeasedWork.Engine
