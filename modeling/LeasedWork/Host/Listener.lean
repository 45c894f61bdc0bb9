import LeasedWork.Engine.Progress

/-!
# Listeners

A listener takes every event off the bus as soon as it gets a turn. It gives up when it finds that
it missed some.
-/
namespace LeasedWork.Host

open Engine

/-- A listener that has come so far on the bus. -/
structure Listener where
  next : Nat
  /-- What it heard and when, the last first. -/
  heard : List (Nat × Event)
  /-- Whether it has asked for the next event. -/
  asked : Bool
  /-- Whether it gave up. -/
  givenUp : Bool
  deriving Inhabited, Repr

namespace Listener

def fresh : Listener := ⟨0, [], false, false⟩

def step (s : Site) (l : Listener) : Progress Listener Unit × Site :=
  if l.givenUp then (.wait .never l, s)
  else if !l.asked then (.wait (.event l.next) { l with asked := true }, s)
  else
    match s.bus.receive? l.next with
    | some (.event e, next) =>
      (.more { l with next := next, heard := (s.clock, e) :: l.heard, asked := false }, s)
    | some (.lagged _, _) => (.more { l with givenUp := true }, s)
    | none => (.wait (.event l.next) l, s)

/-- The events at the front of what was delivered. -/
def untilLag : List Delivery → List Event
  | .event e :: rest => e :: untilLag rest
  | _ => []

/-- What a listener has heard when it is given a last chance to hear. -/
def all (s : Site) (l : Listener) : List (Nat × Event) :=
  let last := if l.givenUp then [] else untilLag (s.bus.drainFrom l.next)
  l.heard.reverse ++ last.map fun e => (s.clock, e)

end Listener

end LeasedWork.Host
