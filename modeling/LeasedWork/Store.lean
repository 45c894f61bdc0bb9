import LeasedWork.Job

/-!
# The store

The store holds every job under its number, leases waiting ones to workers, takes their heartbeats
and their results, and hands expired leases on. It also counts the calls it gets, and can be told
to fail them. Every operation changes at most one entry, and none that is refused changes any.
-/
namespace LeasedWork

open Time (DateFault Instant)

/-- A job and how often it was queued again after a soft failure. -/
structure Entry where
  job : Job
  retries : Nat
  deriving DecidableEq, Inhabited, Repr

/-- A request to finalize a job, as it was received. -/
structure CompleteCall where
  id : Int
  status : Status
  result : Option String
  force : Bool
  deriving DecidableEq, Inhabited, Repr

/-- The calls that workers make. -/
inductive Call where
  | dequeue
  | heartbeat
  | complete
  deriving DecidableEq, Inhabited, Repr

def Call.name : Call → String
  | dequeue => "dequeue"
  | heartbeat => "heartbeat"
  | complete => "complete"

/-- Why the store refuses a call. -/
inductive Refusal where
  /-- The store was told to fail. -/
  | injected (call : Call)
  /-- Only terminal statuses can be asked for. -/
  | notTerminal (status : Status)
  | notFound (id : Int)
  /-- The lease has gone to another holder. -/
  | versionConflict (id expected actual : Int)
  /-- The job is not running. -/
  | forbiddenMove (id : Int) (current next : Status)
  deriving DecidableEq, Inhabited, Repr

def Refusal.toError : Refusal → Error
  | injected call => .queue ("injected " ++ call.name ++ " failure")
  | notTerminal status =>
    .invalidInput ("complete called with non-terminal status " ++ status.title)
  | notFound id => .notFound id
  | versionConflict id expected actual => .versionConflict id expected actual
  | forbiddenMove id current next =>
    .invalidInput ("job " ++ decimalText id ++ " cannot move from " ++ current.title ++ " to " ++
      next.title)

/-- What became of a job whose finalization was accepted. -/
inductive Settlement where
  /-- It waits again. -/
  | requeued
  /-- It is over. -/
  | ended
  deriving DecidableEq, Inhabited, Repr

/-- What a worker asks for when it looks for a job. -/
structure LeaseRequest where
  queue : Queue
  worker : String
  /-- The silence, in seconds, after which a lease has expired. -/
  timeout : Nat
  group : Option Int
  /-- Whether to look for expired leases rather than waiting jobs. -/
  expired : Bool
  deriving DecidableEq, Inhabited, Repr

/-- The store. -/
structure Store where
  /-- The jobs in the order of their numbers. -/
  entries : List Entry
  /-- The last number given out. -/
  lastId : Int
  completeCalls : List CompleteCall
  /-- How many heartbeats came for each number. -/
  beats : List (Int × Nat)
  dequeues : Nat
  initialized : Bool
  failDequeue : Bool
  failHeartbeat : Bool
  failComplete : Bool
  /-- How often a soft failure puts a job back. -/
  maxRetries : Int
  deriving DecidableEq, Inhabited, Repr

namespace Store

/-- How often a soft failure puts a job back if nothing is said. -/
def defaultRetries : Int := 3

/-- The timeout of a lease if nothing is said, in seconds. -/
def defaultTimeout : Nat := 600

def empty (maxRetries : Int) : Store where
  entries := []
  lastId := 0
  completeCalls := []
  beats := []
  dequeues := 0
  initialized := true
  failDequeue := false
  failHeartbeat := false
  failComplete := false
  maxRetries := maxRetries

def entry? (s : Store) (id : Int) : Option Entry := s.entries.find? fun e => e.job.id = id

def job? (s : Store) (id : Int) : Option Job := (s.entry? id).map (·.job)

def group (s : Store) (group : Int) : List Job :=
  (s.entries.map (·.job)).filter fun job => job.group = some group

/-- Changes the first entry that satisfies a condition. -/
def modifyFirst (p : Entry → Bool) (change : Entry → Entry) : List Entry → List Entry
  | [] => []
  | e :: rest => if p e then change e :: rest else e :: modifyFirst p change rest

def modify (s : Store) (id : Int) (change : Entry → Entry) : Store :=
  { s with entries := modifyFirst (fun e => e.job.id = id) change s.entries }

/-- The store after a number was given out and no job came of it. -/
def skipNumber (s : Store) : Store := { s with lastId := s.lastId + 1 }

/-- Queues a new job and gives it a number. -/
def enqueue (s : Store) (queue : Queue) (definition : String) (group : Option Int) (now : Instant) :
    Int × Store :=
  let id := s.lastId + 1
  let job := { Job.new id queue now with definition := some definition, group := group }
  (id, { s with entries := s.entries ++ [⟨job, 0⟩], lastId := id })

/-- Asks for a job to be cancelled; refused once it is over. -/
def requestCancel (s : Store) (id : Int) : Bool × Store :=
  match s.entry? id with
  | some e =>
    if e.job.status.isTerminal then (false, s)
    else (true, s.modify id fun e => { e with job := { e.job with cancelRequested := true } })
  | none => (false, s)

/-- Makes the last sign of life of a job older; fails if no date could name it. -/
def age (s : Store) (id : Int) (seconds : Int) : Except DateFault Store :=
  match s.entry? id with
  | some e =>
    (e.job.beat.earlier seconds).map fun beat =>
      s.modify id fun e => { e with job := { e.job with beat := beat } }
  | none => .ok s

/-- Whether a worker that looks for a job may be given this one. -/
def isEligible (request : LeaseRequest) (now : Instant) (job : Job) : Bool :=
  job.queue = request.queue &&
  (request.group.isNone || job.group = request.group) &&
  if request.expired then
    job.status = .running &&
      (min request.timeout Instant.longestSpan * Time.nanosPerSecond : Int) < now.nanos - job.beat.nanos
  else job.status = .created

def leased (worker : String) (now : Instant) (job : Job) : Job :=
  { job with
    status := .running
    version := job.version + 1
    worker := some worker
    started := some (job.started.getD now)
    beat := now }

/-- Counts a call that looks for a job. -/
def countDequeue (s : Store) : Store := { s with dequeues := s.dequeues + 1 }

/-- Leases the first eligible job. A caller that is cancelled gets none. -/
def dequeue (s : Store) (request : LeaseRequest) (cancelled : Bool) (now : Instant) :
    Except Refusal (Option Job) × Store :=
  let counted := s.countDequeue
  if cancelled then (.ok none, counted)
  else if s.failDequeue then (.error (.injected .dequeue), counted)
  else
    match s.entries.find? fun e => isEligible request now e.job with
    | none => (.ok none, counted)
    | some e =>
      let job := leased request.worker now e.job
      (.ok (some job), counted.modify job.id fun e => { e with job := job })

/-- Leases a waiting job with the default timeout; a refusal counts as no job. -/
def dequeueNow (s : Store) (queue : Queue) (worker : String) (now : Instant) : Option Job × Store :=
  let (answer, s) := s.dequeue ⟨queue, worker, defaultTimeout, none, false⟩ false now
  (answer.toOption.join, s)

def countBeat (id : Int) : List (Int × Nat) → List (Int × Nat)
  | [] => [(id, 1)]
  | (key, n) :: rest => if key = id then (key, n + 1) :: rest else (key, n) :: countBeat id rest

def beatCount (s : Store) (id : Int) : Nat := (s.beats.lookup id).getD 0

def noteBeat (s : Store) (id : Int) : Store := { s with beats := countBeat id s.beats }

/-- Whether the lease of a record is still the one that counts. -/
def isHeld (s : Store) (record : Job) : Bool :=
  (s.entry? record.id).any fun e => e.job.version = record.version && e.job.status = .running

/-- Extends a lease. The answer says whether to abandon the job: it was asked to be cancelled, or
the lease is lost. -/
def heartbeat (s : Store) (record : Job) (now : Instant) : Except Refusal Bool × Store :=
  let counted := s.noteBeat record.id
  if s.failHeartbeat then (.error (.injected .heartbeat), counted)
  else
    match s.entry? record.id with
    | none => (.error (.notFound record.id), counted)
    | some e =>
      if e.job.version ≠ record.version ∨ e.job.status ≠ .running then (.ok true, counted)
      else
        (.ok e.job.cancelRequested,
          counted.modify record.id fun e => { e with job := { e.job with beat := now } })

/-- Whether a finalization puts the job back to wait. -/
def isRequeued (maxRetries : Int) (status : Status) (force : Bool) (retries : Nat) : Bool :=
  status = .failed && !force && (retries : Int) < maxRetries

/-- An entry put back to wait with a result. -/
def requeued (result : Option String) (e : Entry) : Entry :=
  { job := { e.job with result := result, status := .created, worker := none }
    retries := e.retries + 1 }

/-- An entry that is over with a status and a result. -/
def settled (record : Job) (force : Bool) (now : Instant) (e : Entry) : Entry :=
  { e with
    job :=
      { e.job with
        result := record.result
        status := record.status
        ended := some now
        beat := if force then now else e.job.beat } }

/-- Takes note of a call that hands over a result. -/
def noteComplete (s : Store) (record : Job) (force : Bool) : Store :=
  { s with
    completeCalls := s.completeCalls ++ [⟨record.id, record.status, record.result, force⟩] }

/-- Takes the status and the result that the record of a lease carries. -/
def complete (s : Store) (record : Job) (force : Bool) (now : Instant) :
    Except Refusal Settlement × Store :=
  let logged := s.noteComplete record force
  if s.failComplete then (.error (.injected .complete), logged)
  else if !record.status.isTerminal then (.error (.notTerminal record.status), logged)
  else
    match s.entry? record.id with
    | none => (.error (.notFound record.id), logged)
    | some e =>
      if e.job.version ≠ record.version then
        (.error (.versionConflict record.id record.version e.job.version), logged)
      else if !e.job.status.canBecome record.status then
        (.error (.forbiddenMove record.id e.job.status record.status), logged)
      else if isRequeued s.maxRetries record.status force e.retries then
        (.ok .requeued, logged.modify record.id (requeued record.result))
      else (.ok .ended, logged.modify record.id (settled record force now))

/-- The store with one of its calls failing or not. -/
def setFailing (s : Store) (call : Call) (value : Bool) : Store :=
  match call with
  | .dequeue => { s with failDequeue := value }
  | .heartbeat => { s with failHeartbeat := value }
  | .complete => { s with failComplete := value }

end Store

end LeasedWork
