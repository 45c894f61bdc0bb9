import LeasedWork.Engine.Heartbeat

/-!
# Watching heartbeats

Heartbeats can be run for a record without a handler. The surroundings then act on them and on the
store at given times, and after each action write down how the heartbeats are doing.
-/
namespace LeasedWork.Host

open Engine

/-- What can be done to heartbeats that are watched. -/
inductive WatchAction where
  | act (action : Action)
  /-- Only look. -/
  | probe
  /-- Stop the heartbeats. -/
  | drop
  /-- Abandon the execution that they guard. -/
  | abandon
  deriving Inhabited, Repr

/-- What was seen after an action. -/
structure Sighting where
  time : Nat
  reply : Reply
  /-- Whether the heartbeats go on; nothing once they were stopped. -/
  running : Option Bool
  abandoned : Bool
  cancelled : Bool
  beats : Nat
  deriving Inhabited, Repr

/-- Heartbeats that are watched. -/
structure Watch where
  heartbeat : TaskId
  execution : Token
  /-- The job that the heartbeats are for. -/
  id : Int
  pending : List (Nat × WatchAction)
  dropped : Bool
  /-- The last sighting first. -/
  sightings : List Sighting
  deriving Inhabited, Repr

namespace Watch

def isOver (w : Watch) : Bool := w.pending.isEmpty

def perform (s : Site) (w : Watch) : WatchAction → Reply × Watch × Site
  | .act action =>
    let (reply, s) := s.act action
    (reply, w, s)
  | .probe => (.nothing, w, s)
  | .drop => (.nothing, { w with dropped := true }, s.stop w.heartbeat)
  | .abandon =>
    let (first, s) := s.abandon w.execution
    (.bool first, w, s)

def look (s : Site) (w : Watch) (reply : Reply) : Sighting where
  time := s.clock
  reply := reply
  running := if w.dropped then none else some (!s.hasEnded w.heartbeat)
  abandoned := s.tokens.isAbandoned w.execution
  cancelled := s.isCancelled w.execution
  beats := s.store.beatCount w.id

def step (s : Site) (w : Watch) : Progress Watch Unit × Site :=
  match w.pending with
  | [] => (.wait .never w, s)
  | (time, action) :: rest =>
    let deadline := time * Time.nanosPerMilli
    if deadline ≤ s.nanos then
      match perform s w action with
      | (.crashed _, _, s) => (.crash, s)
      | (reply, w, s) =>
        (.more { w with pending := rest, sightings := look s w reply :: w.sightings }, s)
    else (.wait (.time deadline) w, s)

end Watch

end LeasedWork.Host
