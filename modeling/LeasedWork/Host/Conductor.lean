import LeasedWork.Engine.Service

/-!
# Conductors

A conductor starts a pool or the service, lets it run until a given time, asks it to shut down,
and waits until it has ended. If it ends before, the conductor still waits for that time. It keeps
what an observer of the whole would write down.
-/
namespace LeasedWork.Host

open Engine

/-- What is to be hosted. -/
inductive Hosting where
  | pool (queue : Queue) (workers : Nat) (worker : String)
  | service (queues : List HostedQueue) (worker : String)
  deriving Inhabited, Repr

/-- How a hosting is held: awaited by the conductor under the token of the surroundings, or run in
the background under a token of its own. -/
inductive Hold where
  | awaited
  | handle
  deriving DecidableEq, Inhabited, Repr

/-- What a conductor is doing. -/
inductive ConductorPhase where
  | fresh
  /-- The hosting runs as a task. -/
  | running (id : TaskId)
  /-- The hosting has ended before its time. -/
  | lingering
  /-- The hosting was asked to shut down. -/
  | stopping (id : TaskId)
  | over
  deriving DecidableEq, Inhabited, Repr

/-- A conductor and what it has written down. -/
structure Conductor where
  hosting : Hosting
  hold : Hold
  /-- When to ask for shutdown, in milliseconds. -/
  endTime : Nat
  /-- The token that asks for shutdown. -/
  token : Token
  phase : ConductorPhase
  /-- Whether the hosting ended before it was asked to. -/
  finishedEarly : Bool
  /-- Whether shutdown had been asked for before the time of it. -/
  shutdownEarly : Bool
  /-- When the hosting was found to have ended. -/
  finishedAt : Nat
  /-- How many events had been sent when shutdown was asked for. -/
  eventsAtEnd : Nat
  /-- How much a receiver could take off the bus at that time. -/
  receivable : Nat
  deriving Inhabited, Repr

namespace Conductor

def fresh (hosting : Hosting) (hold : Hold) (endTime : Nat) (token : Token) : Conductor :=
  ⟨hosting, hold, endTime, token, .fresh, false, false, 0, 0, 0⟩

def isOver (c : Conductor) : Bool := c.phase = .over

/-- The time of shutdown, in nanoseconds. The conductor sleeps until then. -/
def endNanos (s : Site) (c : Conductor) : Nat := (s.timer.lasting (.ofMillis c.endTime)).nanos

def task (c : Conductor) : Start :=
  match c.hosting with
  | .pool queue workers worker => .pool queue workers worker c.token
  | .service queues worker => .service queues worker c.token

def stop (s : Site) (c : Conductor) (id : TaskId) (early : Bool) : Progress Conductor Unit × Site :=
  let c :=
    { c with
      finishedEarly := early
      shutdownEarly := s.isCancelled c.token
      eventsAtEnd := s.bus.sent.size
      receivable := (s.bus.drainFrom 0).length
      phase := .stopping id }
  (.more c, s.cancel c.token)

def step (s : Site) (c : Conductor) : Progress Conductor Unit × Site :=
  match c.phase with
  | .fresh =>
    let (id, s) := s.spawn c.task
    (.more { c with phase := .running id }, s)
  | .running id =>
    let ended := s.hasEnded id
    let time := c.endNanos s ≤ s.nanos
    match c.hold with
    | .awaited =>
      if ended then
        (.more { c with finishedEarly := true, finishedAt := s.clock, phase := .lingering }, s)
      else if time then stop s c id false
      else (.wait (.either (.anyEnded [id]) (.time (c.endNanos s))) c, s)
    | .handle => if time then stop s c id ended else (.wait (.time (c.endNanos s)) c, s)
  | .lingering =>
    if c.endNanos s ≤ s.nanos then
      (.more { c with shutdownEarly := s.isCancelled c.token, phase := .over }, s.cancel c.token)
    else (.wait (.time (c.endNanos s)) c, s)
  | .stopping id =>
    if s.hasEnded id then (.more { c with finishedAt := s.clock, phase := .over }, s)
    else (.wait (.anyEnded [id]) c, s)
  | .over => (.wait .never c, s)

end Conductor

end LeasedWork.Host
