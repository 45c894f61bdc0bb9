import LeasedWork.Engine.PollLoop

/-!
# Fleets

A fleet is a set of tasks that stand or fall together: the first one to end, for whatever reason,
cancels the token they share, and the fleet is over when all of them have ended. A pool is a fleet
of polling loops; the service is a fleet of pools.
-/
namespace LeasedWork.Engine

/-- A fleet of running tasks. -/
structure Fleet where
  /-- The tasks that have not been seen to end. -/
  running : List TaskId
  /-- Whether one has been seen to end. -/
  broken : Bool
  /-- The token that the tasks share. -/
  scope : Token
  /-- The token that is to be cancelled before any task ends. -/
  shutdown : Token
  /-- What the tasks are called in the log. -/
  kind : String
  deriving Inhabited, Repr

namespace Fleet

def logEnd (s : Site) (f : Fleet) (panicked : Bool) : Site :=
  if panicked then
    s.writeLog ⟨.error, PollLoop.target, f.kind ++ " panicked", []⟩
  else s

/-- Takes note of a task that has ended. The first one cancels the rest. -/
def noteEnd (s : Site) (f : Fleet) (id : TaskId) (panicked : Bool) : Fleet × Site :=
  let rest := { f with running := f.running.filter (· ≠ id), broken := true }
  if f.broken then (rest, logEnd s f panicked)
  else
    let s :=
      if s.isCancelled f.shutdown then s
      else
        s.writeLog ⟨.warn, PollLoop.target,
          "A " ++ f.kind ++ " exited before shutdown was requested, stopping the rest", []⟩
    (rest, (logEnd s f panicked).cancel f.scope)

/-- One move of the task that watches a fleet. -/
def step (s : Site) (f : Fleet) : Progress Fleet Unit × Site :=
  if f.running = [] then (.done (), s)
  else
    match s.firstEnded? f.running with
    | some (id, panicked) =>
      let (f, s) := f.noteEnd s id panicked
      (.more f, s)
    | none => (.wait (.anyEnded f.running) f, s)

end Fleet

/-- What a pool is doing. -/
inductive PoolPhase where
  | fresh
  | watching (loops : Fleet)
  deriving Inhabited, Repr

/-- A pool of polling loops for a queue. -/
structure Pool where
  queue : Queue
  workers : Nat
  worker : String
  /-- The token above that of the pool. -/
  shutdown : Token
  phase : PoolPhase
  deriving Inhabited, Repr

namespace Pool

def fresh (queue : Queue) (workers : Nat) (worker : String) (shutdown : Token) : Pool :=
  ⟨queue, workers, worker, shutdown, .fresh⟩

/-- How many loops a pool runs: at least one. -/
def size (p : Pool) : Nat := max p.workers 1

def spawnLoops (queue : Queue) (worker : String) (pool : Token) :
    List Nat → Site → List TaskId × Site
  | [], s => ([], s)
  | slot :: slots, s =>
    let (id, s) := s.spawn (.loop queue worker slot pool)
    let (ids, s) := spawnLoops queue worker pool slots s
    (id :: ids, s)

def span (p : Pool) : Span :=
  ⟨.info, "execute", PollLoop.target, [("queue_type", .text p.queue.name)]⟩

/-- One move of the task of a pool, in its span. -/
def step (s : Site) (p : Pool) : Progress Pool Unit × Site :=
  s.within p.span fun s => match p.phase with
  | .fresh =>
    let (pool, s) := s.childToken p.shutdown
    let s := s.writeLog ⟨.info, PollLoop.target, "Queue is starting",
      [("workers", .integer p.size), ("worker", .text p.worker)]⟩
    let s := s.publish (.workerStarted p.queue)
    let (loops, s) := spawnLoops p.queue p.worker pool (List.range p.size) s
    (.more { p with phase := .watching ⟨loops, false, pool, p.shutdown, "worker loop"⟩ }, s)
  | .watching loops =>
    let (progress, s) := loops.step s
    match progress with
    | .more loops => (.more { p with phase := .watching loops }, s)
    | .wait w loops => (.wait w { p with phase := .watching loops }, s)
    | .crash => (.crash, s)
    | .done () =>
      let s := s.publish (.workerStopped p.queue)
      (.done (), s.writeLog ⟨.info, PollLoop.target, "Queue stopped", []⟩)

end Pool

end LeasedWork.Engine
