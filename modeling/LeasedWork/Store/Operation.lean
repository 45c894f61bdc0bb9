import LeasedWork.Store

/-!
# Operations of the store

Every call that anyone can make of the store, as a value: workers lease jobs, keep leases alive
and hand over results; submitters queue jobs and ask for their cancellation; the surroundings age
heartbeats and switch failures on and off. A history of a store is a list of operations with their
times.
-/
namespace LeasedWork

open Time (Instant)

/-- A call of the store. -/
inductive Operation where
  | enqueue (queue : Queue) (definition : String) (group : Option Int)
  | dequeue (request : LeaseRequest) (cancelled : Bool)
  | heartbeat (record : Job)
  | complete (record : Job) (force : Bool)
  | requestCancel (id : Int)
  | age (id : Int) (seconds : Int)
  | setFailing (call : Call) (value : Bool)
  | setInitialized (value : Bool)
  deriving DecidableEq, Inhabited, Repr

/-- What the caller of an operation gets. -/
inductive Answer where
  /-- The number of a new job. -/
  | number (id : Int)
  | lease (answer : Except Refusal (Option Job))
  /-- Whether a job is to be abandoned. -/
  | beat (answer : Except Refusal Bool)
  | settlement (answer : Except Refusal Settlement)
  /-- Whether a request was accepted. -/
  | accepted (yes : Bool)
  | done
  /-- No date could name the result. -/
  | noDate
  deriving Inhabited, Repr

namespace Store

def perform (s : Store) (now : Instant) : Operation → Answer × Store
  | .enqueue queue definition group =>
    let (id, s) := s.enqueue queue definition group now
    (.number id, s)
  | .dequeue request cancelled =>
    let (answer, s) := s.dequeue request cancelled now
    (.lease answer, s)
  | .heartbeat record =>
    let (answer, s) := s.heartbeat record now
    (.beat answer, s)
  | .complete record force =>
    let (answer, s) := s.complete record force now
    (.settlement answer, s)
  | .requestCancel id =>
    let (yes, s) := s.requestCancel id
    (.accepted yes, s)
  | .age id seconds =>
    match s.age id seconds with
    | .ok s => (.done, s)
    | .error _ => (.noDate, s)
  | .setFailing call value => (.done, s.setFailing call value)
  | .setInitialized value => (.done, { s with initialized := value })

/-- Performs the operations of a history, and gives their answers in order. -/
def performAll : List (Instant × Operation) → Store → List Answer × Store
  | [], s => ([], s)
  | (now, op) :: rest, s =>
    let (answer, s) := s.perform now op
    let (answers, s) := performAll rest s
    (answer :: answers, s)

/-- The store after a history that began with an empty one. -/
def afterHistory (maxRetries : Int) (history : List (Instant × Operation)) : Store :=
  (performAll history (empty maxRetries)).2

/-- A history in parts is performed part by part. -/
theorem performAll_append (a b : List (Instant × Operation)) (s : Store) :
    performAll (a ++ b) s =
      ((performAll a s).1 ++ (performAll b (performAll a s).2).1,
        (performAll b (performAll a s).2).2) := by
  induction a generalizing s with
  | nil => rfl
  | cons op rest ih => simp [performAll, ih]

end Store

end LeasedWork
