import LeasedWork.Engine.Execution

/-!
# Polling loops

A loop waits until the storage is ready, then for a random delay, and then takes one job after the
other. When it is time it looks for expired leases first. A loop that finds no job sleeps; a store
that fails is taken for an empty one. Cancelling the pool ends the loop at its next look.
-/
namespace LeasedWork.Engine

open LogLine (jobField errorField)

/-- What a loop is doing. -/
inductive LoopPhase where
  /-- About to look whether the storage is ready. -/
  | gate
  /-- Sleeping until the next such look. -/
  | gateSleep
  /-- In its random delay. -/
  | delay
  /-- About to begin an iteration. -/
  | top
  /-- Calling for an expired lease. -/
  | scanning (stage : CallStage)
  /-- Calling for a waiting job. -/
  | fetching (stage : CallStage)
  | executing (execution : Execution)
  /-- Sleeping because there was no job. -/
  | idle
  deriving Inhabited, Repr

/-- A polling loop. -/
structure PollLoop where
  queue : Queue
  worker : String
  slot : Nat
  pool : Token
  /-- When it last said that it is alive, in nanoseconds. -/
  lastAlive : Nat
  /-- When it last looked for expired leases, in nanoseconds. -/
  lastScan : Nat
  phase : LoopPhase
  deriving Inhabited, Repr

namespace PollLoop

def fresh (queue : Queue) (worker : String) (slot : Nat) (pool : Token) : PollLoop :=
  ⟨queue, worker, slot, pool, 0, 0, .gate⟩

/-- Where the lines of loops and pools come from. -/
def target : String := "taskhost_jobs::worker"

/-- The field that tells the loops of a pool apart. -/
def slotField (l : PollLoop) : String × FieldValue := ("slot", .integer l.slot)

def line (l : PollLoop) (level : Level) (message : String) : LogLine :=
  ⟨level, target, message, [l.slotField]⟩

def request (s : Site) (l : PollLoop) (expired : Bool) : LeaseRequest :=
  ⟨l.queue, l.worker, s.timing.leaseTimeout, none, expired⟩

/-- Ends a loop that was cancelled before the storage was ready. -/
def leaveGate (s : Site) (l : PollLoop) : Progress PollLoop Unit × Site :=
  (.done (), s.writeLog (l.line .debug "Worker stopped before storage was ready"))

def passGate (s : Site) (l : PollLoop) : Progress PollLoop Unit × Site :=
  if s.isCancelled l.pool then leaveGate s l
  else if s.ready && s.store.initialized then
    let (delay, s) := s.jitter s.timing.idleSleep
    (.wait (.untilOrCancel (s.afterSleep delay) l.pool) { l with phase := .delay }, s)
  else
    (.wait (.untilOrCancel (s.afterSleep s.timing.readinessSleep) l.pool)
      { l with phase := .gateSleep }, s)

def rest (s : Site) (l : PollLoop) : Progress PollLoop Unit × Site :=
  (.wait (.untilOrCancel (s.afterSleep s.timing.idleSleep) l.pool) { l with phase := .idle },
    s.writeLog (l.line .debug "Empty queue, delaying until next iteration"))

def fetch (s : Site) (l : PollLoop) : Progress PollLoop Unit × Site :=
  (.more { l with phase := .fetching .start },
    s.writeLog ⟨.debug, target, "Dequeuing next job", []⟩)

/-- Begins an iteration: a word that the loop is alive, if it is time, and the first call. -/
def iterate (s : Site) (l : PollLoop) : Progress PollLoop Unit × Site :=
  let alive := s.timing.alivePeriod.nanos < s.nanos - l.lastAlive
  let s := if alive then s.writeLog (l.line .info "Worker is running") else s
  let l := if alive then { l with lastAlive := s.nanos } else l
  if !s.store.initialized then rest s l
  else if s.timing.scanPeriod.nanos ≤ s.nanos - l.lastScan then
    (.more { l with lastScan := s.nanos, phase := .scanning .start },
      s.writeLog ⟨.debug, target, "Checking for jobs with expired leases", []⟩)
  else fetch s l

/-- Begins to execute a job. -/
def execute (s : Site) (l : PollLoop) (job : Job) : Progress PollLoop Unit × Site :=
  (.more { l with phase := .executing (.fresh job l.pool) },
    s.writeLog ⟨.info, target, "Job dequeued",
      [jobField job.id, ("version", .integer job.version), l.slotField]⟩)

def refusedLine (message : String) (refusal : Refusal) : LogLine :=
  ⟨.error, target, message, [errorField refusal.toError.message]⟩

/-- Goes on after a call for an expired lease. -/
def afterScan (s : Site) (l : PollLoop) :
    Except Refusal (Option Job) → Progress PollLoop Unit × Site
  | .ok (some job) => execute s l job
  | .ok none => fetch s l
  | .error refusal => fetch (s.writeLog (refusedLine "Failed to dequeue expired job" refusal)) l

/-- Goes on after a call for a waiting job. -/
def afterFetch (s : Site) (l : PollLoop) :
    Except Refusal (Option Job) → Progress PollLoop Unit × Site
  | .ok (some job) => execute s l job
  | .ok none => rest s l
  | .error refusal => rest (s.writeLog (refusedLine "Failed to dequeue new job" refusal)) l

def step (s : Site) (l : PollLoop) : Progress PollLoop Unit × Site :=
  match l.phase with
  | .gate => passGate s l
  | .gateSleep =>
    if s.isCancelled l.pool then leaveGate s l else (.more { l with phase := .gate }, s)
  | .delay =>
    if s.isCancelled l.pool then (.done (), s)
    else (.more { l with lastAlive := s.nanos, lastScan := s.nanos, phase := .top }, s)
  | .top => if s.isCancelled l.pool then (.done (), s) else iterate s l
  | .scanning stage =>
    let (progress, s) := s.callDequeue stage (l.request s true) l.pool
    match progress with
    | .more stage => (.more { l with phase := .scanning stage }, s)
    | .wait w stage => (.wait w { l with phase := .scanning stage }, s)
    | .crash => (.crash, s)
    | .done answer => afterScan s l answer
  | .fetching stage =>
    let (progress, s) := s.callDequeue stage (l.request s false) l.pool
    match progress with
    | .more stage => (.more { l with phase := .fetching stage }, s)
    | .wait w stage => (.wait w { l with phase := .fetching stage }, s)
    | .crash => (.crash, s)
    | .done answer => afterFetch s l answer
  | .executing execution =>
    let (progress, s) := execution.step s
    (progress.within (fun x => { l with phase := .executing x })
      fun _ => .more { l with phase := .top }, s)
  | .idle =>
    if s.isCancelled l.pool then
      (.done (), s.writeLog (l.line .info "Queue is stopping, worker is shutting down"))
    else (.more { l with phase := .top }, s)

end PollLoop

end LeasedWork.Engine
