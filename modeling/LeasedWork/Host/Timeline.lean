import LeasedWork.Engine.Progress

/-!
# Timelines

The surroundings of a host act on it at given times, whatever the engine is doing then. A timeline
keeps the replies to its actions, and breaks down with an action that does.
-/
namespace LeasedWork.Host

open Engine

/-- Actions still to be done at their times, and the replies to the others. -/
structure Timeline where
  pending : List (Nat × Action)
  /-- The last reply first. -/
  replies : List (Nat × Reply)
  deriving Inhabited, Repr

namespace Timeline

def ofList (actions : List (Nat × Action)) : Timeline := ⟨actions, []⟩

def isOver (t : Timeline) : Bool := t.pending.isEmpty

/-- A time of a timeline, in nanoseconds. -/
def deadline (ms : Nat) : Nat := ms * Time.nanosPerMilli

/-- One move of a timeline: it waits for the next action and does it. -/
def step (s : Site) (t : Timeline) : Progress Timeline Unit × Site :=
  match t.pending with
  | [] => (.wait .never t, s)
  | (time, action) :: rest =>
    if deadline time ≤ s.nanos then
      match (s.note (.action action.name)).act action with
      | (.crashed _, s) => (.crash, s)
      | (reply, s) => (.more ⟨rest, (s.clock, reply) :: t.replies⟩, s)
    else (.wait (.time (deadline time)) t, s)

end Timeline

end LeasedWork.Host
