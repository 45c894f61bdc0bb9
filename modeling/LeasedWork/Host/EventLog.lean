import LeasedWork.Engine.Progress

/-!
# Event logs

An event log writes a line for every event on the bus, as soon as it gets a turn, and one for
events that it missed.
-/
namespace LeasedWork

open LogLine (jobField errorField)

/-- An event with its members, as the log shows it. -/
def Event.summary (e : Event) : String :=
  let job := match e.job? with
    | some id => "job_id: " ++ decimalText id ++ ", "
    | none => ""
  e.name ++ " \x7b " ++ job ++ "queue_type: " ++ e.queue.title ++ " \x7d"

def Event.line (e : Event) : LogLine :=
  let line (level : Level) (message event : String) (id : Int)
      (more : List (String × FieldValue)) : LogLine :=
    ⟨level, "taskhost::events", message,
      [("event", .quoted event), jobField id, ("queue_type", .text e.queue.name)] ++ more⟩
  match e with
  | jobCompleted id _ => line .info "Job completed" "job.completed" id []
  | jobCancelled id _ => line .info "Job cancelled" "job.cancelled" id []
  | jobFailed id _ soft error =>
    line .warn "Job failed" "job.failed" id [("soft", .bool soft), errorField error]
  | _ => ⟨.debug, "taskhost::events", "Worker event", [("event", .text e.summary)]⟩

namespace Host

open Engine

/-- An event log that has come so far on the bus. -/
structure EventLog where
  next : Nat
  deriving DecidableEq, Inhabited, Repr

namespace EventLog

def fresh : EventLog := ⟨0⟩

def lagLine (missed : Nat) : LogLine :=
  ⟨.warn, "taskhost", "Event log lagged", [("missed", .integer missed)]⟩

def step (s : Site) (l : EventLog) : Progress EventLog Unit × Site :=
  match s.bus.receive? l.next with
  | some (.event e, next) => (.more ⟨next⟩, s.writeLog e.line)
  | some (.lagged missed, next) => (.more ⟨next⟩, s.writeLog (lagLine missed))
  | none => (.wait (.event l.next) l, s)

end EventLog

end Host

end LeasedWork
