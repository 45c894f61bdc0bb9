import LeasedWork.Time.Timer

/-!
# Waiting for the first of several things

A sleep that a cancellation ends, and a wait for a readiness signal that a cancellation or the
patience of the observer ends. Times are milliseconds; a cancellation or a notification at time
zero comes before the wait.
-/
namespace LeasedWork.Host

/-- A sleep of so many milliseconds that is cancelled at a time, if at all: whether it went
through, and how long it lasted. -/
def cancellableSleep (ms : Nat) (cancelAt : Option Nat) : Bool × Nat :=
  let ms := min ms Time.Timer.longestSleep
  match cancelAt with
  | none => (true, ms)
  | some time => if time = 0 ∨ time < ms then (false, time) else (true, ms)

/-- How a wait for readiness ended. -/
inductive WaitEnd where
  | ended (ready : Bool) (waited : Nat)
  | never
  deriving DecidableEq, Inhabited, Repr

/-- Readiness signals by number: which ones are set, and when others will be. -/
structure Signals where
  clock : Nat
  set : List Nat
  /-- Times at which signals will be set. -/
  upcoming : List (Nat × Nat)
  next : Nat
  deriving Inhabited, Repr

namespace Signals

def empty : Signals := ⟨0, [], [], 0⟩

/-- How long an observer waits before giving up: a day. -/
def patience : Nat := 24 * 60 * 60 * 1000

def new (s : Signals) : Nat × Signals := (s.next, { s with next := s.next + 1 })

def isReady (s : Signals) (signal : Nat) : Bool := s.set.contains signal

def notify (s : Signals) (signal : Nat) : Signals := { s with set := signal :: s.set }

def passTo (s : Signals) (time : Nat) : Signals :=
  let due := s.upcoming.filter fun u => u.1 ≤ time
  { s with
    clock := time
    set := due.map (·.2) ++ s.set
    upcoming := s.upcoming.filter fun u => !decide (u.1 ≤ time) }

/-- The time at which a signal will be set. -/
def upcomingAt? (s : Signals) (signal : Nat) : Option Nat :=
  ((s.upcoming.filter fun u => u.2 = signal).map (·.1)).min?

def wait (s : Signals) (signal : Nat) (notifyAt cancelAt : Option Nat) : WaitEnd × Signals :=
  let s := match notifyAt with
    | none => s
    | some 0 => s.notify signal
    | some ms => { s with upcoming := s.upcoming ++ [(s.clock + ms, signal)] }
  if cancelAt = some 0 then (.ended false 0, s)
  else if s.isReady signal then (.ended true 0, s)
  else
    let limit := s.clock + patience
    let set := (s.upcomingAt? signal).getD (limit + 1)
    let cancelled := (cancelAt.map (s.clock + ·)).getD (limit + 1)
    if limit < set ∧ limit < cancelled then (.never, s.passTo limit)
    else if set ≤ cancelled then (.ended true (set - s.clock), s.passTo set)
    else (.ended false (cancelled - s.clock), s.passTo cancelled)

end Signals

end LeasedWork.Host
