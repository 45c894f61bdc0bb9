import LeasedWork.Queue

/-!
# Events

A pool tells what it does on a bus that keeps the last events only. A receiver reads them in
order; one that falls too far behind is told how many it missed and goes on with the oldest that
is kept.
-/
namespace LeasedWork

/-- What happened in a pool. -/
inductive Event where
  | workerStarted (queue : Queue)
  | jobStarted (id : Int) (queue : Queue)
  | jobCompleted (id : Int) (queue : Queue)
  | jobFailed (id : Int) (queue : Queue) (soft : Bool) (error : String)
  | jobCancelled (id : Int) (queue : Queue)
  /-- No handler was there for the job. -/
  | jobSkipped (id : Int) (queue : Queue)
  /-- Shutdown interrupted the job. -/
  | jobInterrupted (id : Int) (queue : Queue)
  | workerStopped (queue : Queue)
  deriving DecidableEq, Inhabited, Repr

namespace Event

def name : Event → String
  | workerStarted _ => "WorkerStarted"
  | jobStarted _ _ => "JobStarted"
  | jobCompleted _ _ => "JobCompleted"
  | jobFailed _ _ _ _ => "JobFailed"
  | jobCancelled _ _ => "JobCancelled"
  | jobSkipped _ _ => "JobSkipped"
  | jobInterrupted _ _ => "JobInterrupted"
  | workerStopped _ => "WorkerStopped"

def queue : Event → Queue
  | workerStarted q | jobStarted _ q | jobCompleted _ q | jobFailed _ q _ _ | jobCancelled _ q
  | jobSkipped _ q | jobInterrupted _ q | workerStopped q => q

def job? : Event → Option Int
  | jobStarted id _ | jobCompleted id _ | jobFailed id _ _ _ | jobCancelled id _
  | jobSkipped id _ | jobInterrupted id _ => some id
  | workerStarted _ | workerStopped _ => none

end Event

/-- The events sent so far, and how many of the last ones are kept. -/
structure Bus where
  capacity : Nat
  sent : Array Event
  deriving Inhabited, Repr

/-- What a receiver gets. -/
inductive Delivery where
  | event (e : Event)
  /-- So many events were missed. -/
  | lagged (missed : Nat)
  deriving DecidableEq, Inhabited, Repr

namespace Bus

/-- How many events the bus of a pool keeps. -/
def poolCapacity : Nat := 256

def empty (capacity : Nat) : Bus := ⟨capacity, #[]⟩

def send (bus : Bus) (e : Event) : Bus := { bus with sent := bus.sent.push e }

/-- What a receiver that has come as far as `next` gets, and how far it has come then. -/
def receive? (bus : Bus) (next : Nat) : Option (Delivery × Nat) :=
  let oldest := bus.sent.size - bus.capacity
  if next < oldest then some (.lagged (oldest - next), oldest)
  else (bus.sent[next]?).map fun e => (.event e, next + 1)

/-- Everything a receiver that has come as far as `next` can get at once; the first argument
bounds how much. -/
def drain (bus : Bus) : Nat → Nat → List Delivery
  | 0, _ => []
  | n + 1, next =>
    match bus.receive? next with
    | none => []
    | some (delivery, next) => delivery :: drain bus n next

/-- Everything a receiver that has come as far as `next` can get at once. -/
def drainFrom (bus : Bus) (next : Nat) : List Delivery := bus.drain (bus.sent.size + 2) next

end Bus

end LeasedWork
