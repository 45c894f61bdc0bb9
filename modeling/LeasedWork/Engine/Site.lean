import LeasedWork.Engine.Handler
import LeasedWork.Event
import LeasedWork.LogLine
import LeasedWork.Registry
import LeasedWork.Settings.HostedQueue
import LeasedWork.Settings.Timing
import LeasedWork.Time.Jitter
import LeasedWork.Time.Timer
import LeasedWork.Token

/-!
# The site of an engine

Everything that the tasks of an engine share: a clock in milliseconds, a timer, the store, tokens,
the readiness signal, the event bus, the log, and the trace of what the engine asked of the store
and of handlers. Tasks touch each other only through the site; they start and stop one another by
leaving word here. What can go wrong in the store is part of the site as data: calls that take time
and calls that break down.
-/
namespace LeasedWork.Engine

open Time (DateFault Instant Duration Draws Timer)
open LogLine (jobField)

abbrev TaskId := Nat

/-- What can go wrong with one kind of call. -/
structure CallFaults where
  /-- How long the n-th call takes, in milliseconds; the rest take no time. -/
  delays : List Nat
  /-- How long every call takes that the list does not reach. -/
  steadyDelay : Nat
  /-- The calls that break down, counted from one. -/
  crashes : List Nat
  /-- How many calls there were. -/
  made : Nat
  deriving DecidableEq, Inhabited, Repr

/-- Calls that take no time and do not break down. -/
def CallFaults.none : CallFaults := ⟨[], 0, [], 0⟩

/-- What can go wrong with the store. -/
structure Faults where
  dequeue : CallFaults
  heartbeat : CallFaults
  complete : CallFaults
  deriving DecidableEq, Inhabited, Repr

def Faults.none : Faults := ⟨.none, .none, .none⟩

def Faults.of (f : Faults) : Call → CallFaults
  | .dequeue => f.dequeue
  | .heartbeat => f.heartbeat
  | .complete => f.complete

/-- The faults with those of one kind of call replaced. -/
def Faults.set (f : Faults) (call : Call) (c : CallFaults) : Faults :=
  match call with
  | .dequeue => { f with dequeue := c }
  | .heartbeat => { f with heartbeat := c }
  | .complete => { f with complete := c }

/-- What the engine did, as far as the store and handlers can see. -/
inductive Trace where
  | dequeue (request : LeaseRequest) (answer : Except Refusal (Option Job))
  | heartbeat (record : Job) (answer : Except Refusal Bool)
  /-- The flags say whether the last heartbeat is forced and whether the token was cancelled. -/
  | complete (record : Job) (force cancelled : Bool) (answer : Except Refusal Settlement)
  /-- A call broke down. -/
  | crashed (call : Call)
  /-- An action is about to be done. -/
  | action (name : String)
  | started (handler : String) (id : Int) (cancelled : Bool)
  | finished (handler : String) (id : Int) (cancelled : Bool)
  /-- A handler saw its token cancelled and gave up. -/
  | gaveUp (handler : String) (id : Int)
  deriving Inhabited, Repr

/-- A task to be started. -/
inductive Start where
  /-- Heartbeats for a record, the first one after a delay. -/
  | heartbeat (record : Job) (period first : Duration) (execution : Token)
  /-- One polling loop of a pool. -/
  | loop (queue : Queue) (worker : String) (slot : Nat) (pool : Token)
  /-- A pool of so many loops under a scope. -/
  | pool (queue : Queue) (workers : Nat) (worker : String) (scope : Token)
  /-- The service for some queues under a token. -/
  | service (queues : List HostedQueue) (worker : String) (shutdown : Token)
  deriving Inhabited, Repr

/-- Everything that tasks share. -/
structure Site where
  /-- Milliseconds since the beginning. -/
  clock : Nat
  timer : Timer
  store : Store
  tokens : Tokens
  /-- The token of the surroundings. -/
  shutdown : Token
  /-- Whether the storage was reported ready. -/
  ready : Bool
  timing : Timing
  registry : Registry Handler
  /-- How often each script was invoked. -/
  invocations : List (Nat × Nat)
  draws : Draws
  faults : Faults
  bus : Bus
  /-- Leases remembered by actions. -/
  leases : List (String × Job)
  /-- The trace, the last entry first, with times. -/
  trace : List (Nat × Trace)
  /-- The span in which lines are written. -/
  span : Option Span
  /-- The log, the last line first. -/
  log : List LogEntry
  /-- Tasks to be started, the last one first. -/
  starting : List (TaskId × Start)
  /-- Heartbeat tasks to be stopped. -/
  stopping : List TaskId
  nextTask : TaskId
  /-- The tasks that have ended, in order, and whether by a panic. -/
  ended : List (TaskId × Bool)
  deriving Inhabited

namespace Site

/-- The beginning of time. -/
def start : Instant := .ofDate ⟨2024, 1, 1⟩

/-- A site with an empty store and nothing set. -/
def initial : Site :=
  let (shutdown, tokens) := Tokens.empty.root
  { clock := 0
    timer := .usual
    store := .empty Store.defaultRetries
    tokens := tokens
    shutdown := shutdown
    ready := false
    timing := .default
    registry := .empty
    invocations := []
    draws := .ofList []
    faults := .none
    bus := .empty Bus.poolCapacity
    leases := []
    trace := []
    span := none
    log := []
    starting := []
    stopping := []
    nextTask := 0
    ended := [] }

def now (s : Site) : Instant := start.addMillis s.clock

/-- Whether a date can name the present time. -/
def isDated (s : Site) : Bool := Instant.isNameable s.now.second

/-- The clock in nanoseconds. -/
def nanos (s : Site) : Nat := s.clock * Time.nanosPerMilli

/-- A time after now, in nanoseconds. -/
def after (s : Site) (d : Duration) : Nat := s.nanos + d.nanos

/-- When a sleep is over, in nanoseconds. -/
def afterSleep (s : Site) (d : Duration) : Nat := s.after (s.timer.lasting d)

def isCancelled (s : Site) (t : Token) : Bool := s.tokens.isCancelled t

def cancel (s : Site) (t : Token) : Site := { s with tokens := s.tokens.cancel t }

def childToken (s : Site) (parent : Token) : Token × Site :=
  let (token, tokens) := s.tokens.child parent
  (token, { s with tokens := tokens })

def hold (s : Site) (t : Token) : Site := { s with tokens := s.tokens.hold t }

def release (s : Site) (t : Token) : Site := { s with tokens := s.tokens.release t }

/-- Abandons an execution; the answer says whether it is the first time. -/
def abandon (s : Site) (t : Token) : Bool × Site :=
  let (first, tokens) := s.tokens.abandon t
  (first, { s with tokens := tokens })

def writeLog (s : Site) (line : LogLine) : Site :=
  { s with log := ⟨s.clock, s.span, line⟩ :: s.log }

def within {α : Type} (s : Site) (span : Span) (work : Site → α × Site) : α × Site :=
  let (answer, t) := work { s with span := some span }
  (answer, { t with span := s.span })

def note (s : Site) (entry : Trace) : Site := { s with trace := (s.clock, entry) :: s.trace }

def publish (s : Site) (e : Event) : Site := { s with bus := s.bus.send e }

def jitter (s : Site) (period : Duration) : Duration × Site :=
  let (delay, draws) := Time.jitter period s.draws
  (delay, { s with draws := draws })

def spawn (s : Site) (task : Start) : TaskId × Site :=
  (s.nextTask, { s with starting := (s.nextTask, task) :: s.starting, nextTask := s.nextTask + 1 })

def stop (s : Site) (id : TaskId) : Site := { s with stopping := id :: s.stopping }

def hasEnded (s : Site) (id : TaskId) : Bool := s.ended.any (·.1 = id)

/-- The first of some tasks to have ended, and whether it panicked. -/
def firstEnded? (s : Site) (ids : List TaskId) : Option (TaskId × Bool) :=
  s.ended.find? fun e => e.1 ∈ ids

def invocationsOf (s : Site) (key : Nat) : Nat := (s.invocations.lookup key).getD 0

def countInvocation (s : Site) (key : Nat) : Site :=
  { s with
    invocations := (key, s.invocationsOf key + 1) :: s.invocations.filter (·.1 ≠ key) }

/-- Reports the storage ready; only the first report changes anything. -/
def notifyReady (s : Site) : Site :=
  if s.ready then s
  else
    { s with ready := true }.writeLog
      ⟨.info, "taskhost_jobs::readiness", "Storage ready, job hosting unblocked", []⟩

def leaseLine (job : Job) : LogLine :=
  ⟨.debug, "taskhost_jobs::mock", "Leased job",
    [jobField job.id, ("version", .integer job.version), ("worker", .quoted (job.worker.getD ""))]⟩

/-- The log line for a job put back. -/
def requeueLine (id : Int) (retries : Nat) : LogLine :=
  ⟨.debug, "taskhost_jobs::mock", "Soft failure, job requeued",
    [jobField id, ("retries", .integer retries)]⟩

/-- What becomes of a call of the store. If it has to know the date and there is none, it breaks
down, and all that is left of it is that it was counted. -/
def answered {α : Type} (s : Site) (needsDate : Bool) (counted : Store) (done : α × Store) :
    Option α × Site :=
  if needsDate && !s.isDated then (none, { s with store := counted })
  else (some done.1, { s with store := done.2 })

def askDequeue (s : Site) (request : LeaseRequest) (cancelled : Bool) :
    Option (Except Refusal (Option Job)) × Site :=
  let (answer, s) := s.answered (!cancelled && !s.store.failDequeue) s.store.countDequeue
    (s.store.dequeue request cancelled s.now)
  match answer with
  | some (.ok (some job)) => (answer, s.writeLog (leaseLine job))
  | _ => (answer, s)

/-- Tells the store that a lease is alive. -/
def askHeartbeat (s : Site) (record : Job) : Option (Except Refusal Bool) × Site :=
  s.answered (!s.store.failHeartbeat && s.store.isHeld record) (s.store.noteBeat record.id)
    (s.store.heartbeat record s.now)

def askComplete (s : Site) (record : Job) (force : Bool) :
    Option (Except Refusal Settlement) × Site :=
  let done := s.store.complete record force s.now
  let (answer, s) := s.answered (done.1 matches .ok _) (s.store.noteComplete record force) done
  match answer with
  | some (.ok .requeued) =>
    (answer, s.writeLog (requeueLine record.id (((s.store.entry? record.id).map (·.retries)).getD 0)))
  | _ => (answer, s)

/-- Remembers a lease under a name; no lease leaves the old one. -/
def remember (s : Site) (name : Option String) (job : Option Job) : Site :=
  match name, job with
  | some name, some job =>
    { s with leases := (name, job) :: s.leases.filter (·.1 ≠ name) }
  | _, _ => s

/-- Queues so many jobs; without a date it breaks down at the first one. -/
def enqueueMany (queue : Queue) (definition : String) (group : Option Int) :
    Nat → Site → Option (List Int) × Site
  | 0, s => (some [], s)
  | n + 1, s =>
    if s.isDated then
      let (id, store) := s.store.enqueue queue definition group s.now
      let (ids, s) := enqueueMany queue definition group n { s with store := store }
      (ids.map (id :: ·), s)
    else (none, { s with store := s.store.skipNumber })

/-- The reply that reports the answer of a call, or that it broke down. -/
def reply {α : Type} (report : α → Reply) : Option (Except Refusal α) → Reply
  | some (.ok answer) => report answer
  | some (.error refusal) => .refused refusal
  | none => .crashed .badSum

/-- The job that came of a call, if any. -/
def leasedJob? (answer : Option (Except Refusal (Option Job))) : Option Job :=
  answer.bind fun answer => answer.toOption.join

def act (s : Site) : Action → Reply × Site
  | .enqueue queue definition group count =>
    let (ids, s) := enqueueMany queue definition group count s
    (ids.elim (.crashed .badSum) .ids, s)
  | .requestCancel id =>
    let (accepted, store) := s.store.requestCancel id
    (.bool accepted, { s with store := store })
  | .age id seconds =>
    match s.store.age id seconds with
    | .ok store => (.nothing, { s with store := store })
    | .error fault => (.crashed fault, s)
  | .get id => (.job (s.store.job? id), s)
  | .group group => (.statuses ((s.store.group group).map fun job => (job.id, job.status)), s)
  | .setInitialized value => (.nothing, { s with store := { s.store with initialized := value } })
  | .setFailing call value => (.nothing, { s with store := s.store.setFailing call value })
  | .isInitialized => (.bool s.store.initialized, s)
  | .notifyReady => (.nothing, s.notifyReady)
  | .shutdown => (.nothing, s.cancel s.shutdown)
  | .dequeue request cancelled saveAs =>
    let (answer, s) := s.askDequeue request cancelled
    (reply .job answer, s.remember saveAs (leasedJob? answer))
  | .dequeueNow queue worker saveAs =>
    let (answer, s) := s.askDequeue ⟨queue, worker, Store.defaultTimeout, none, false⟩ false
    let job := leasedJob? answer
    (if answer.isSome then .job job else .crashed .badSum, s.remember saveAs job)
  | .lookup id saveAs =>
    let job := s.store.job? id
    (.job job, s.remember saveAs job)
  | .heartbeat lease overrides =>
    match s.leases.lookup lease with
    | none => (.noLease, s)
    | some record =>
      let (answer, s) := s.askHeartbeat (overrides.apply record)
      (reply .bool answer, s)
  | .complete lease overrides force =>
    match s.leases.lookup lease with
    | none => (.noLease, s)
    | some record =>
      let (answer, s) := s.askComplete (overrides.apply record) force
      (reply (fun _ => .accepted) answer, s)
  | .completeCalls => (.calls s.store.completeCalls, s)
  | .heartbeatCount id => (.count (s.store.beatCount id), s)
  | .dequeueCount => (.count s.store.dequeues, s)

/-- Does actions one after the other, unless one breaks down. -/
def actAll : List Action → Site → Option Site
  | [], s => some s
  | action :: rest, s =>
    match s.act action with
    | (.crashed _, _) => none
    | (_, s) => actAll rest s

end Site

end LeasedWork.Engine
