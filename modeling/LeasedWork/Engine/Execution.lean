import LeasedWork.Engine.Disposition
import LeasedWork.Engine.Heartbeat
import LeasedWork.Engine.Invocation
import LeasedWork.Time.Stamp

/-!
# Executions

An execution takes a leased job through its handler under heartbeats and hands the result to the
store, in one call, with a token that nothing cancels. Whatever goes wrong in the handler or in
the answer of the store ends here. An event is published only for a result that the store took.
-/
namespace LeasedWork.Engine

open LogLine (jobField errorField optionText)

/-- What came of a leased job. -/
inductive ExecutionResult where
  /-- There was no handler; the lease is left to expire. -/
  | unsupported
  /-- Shutdown interrupted the handler; the lease is left to expire. -/
  | interrupted
  /-- A terminal status was chosen and handed to the store. -/
  | finalized (disposition : Disposition) (persisted : Bool)
  deriving DecidableEq, Inhabited, Repr

/-- What an execution is doing. -/
inductive ExecutionPhase where
  | fresh
  /-- Running the handler under a token, with a heartbeat task. -/
  | handling (invocation : Invocation) (token : Token) (heartbeat : TaskId)
  /-- Handing a record to the store, the handler having run under a token. -/
  | finalizing (token : Token) (disposition : Disposition) (outcome : Outcome) (record : Job)
      (stage : CallStage)
  deriving Inhabited, Repr

/-- An execution of a leased job under the token of its pool. -/
structure Execution where
  job : Job
  shutdown : Token
  /-- When the handler was started, in milliseconds. -/
  since : Nat
  phase : ExecutionPhase
  deriving Inhabited, Repr

namespace Execution

def fresh (job : Job) (shutdown : Token) : Execution := ⟨job, shutdown, 0, .fresh⟩

def target : String := "taskhost_jobs::execution"

/-- The span in which a job is executed. -/
def span (job : Job) : Span :=
  ⟨.info, "job", target,
    [jobField job.id, ("queue_type", .text job.queue.name), ("group_id", .text (optionText job.group)),
      ("version", .integer job.version), ("create_date", .text (String.ofList job.created.spoken)),
      ("heartbeat_date", .text (String.ofList job.beat.spoken))]⟩

def line (level : Level) (message : String) (job : Job) (more : List (String × FieldValue)) :
    LogLine :=
  ⟨level, target, message, jobField job.id :: more⟩

/-- The field that shows the group of a job. -/
def groupField (job : Job) : String × FieldValue := ("group_id", .text (optionText job.group))

/-- The field that shows how long an execution has lasted. -/
def lengthField (s : Site) (x : Execution) : String × FieldValue :=
  ("duration_ms", .integer (s.clock - x.since : Nat))

/-- The log line for a disposition, if it gets one. What a customer brought about is a warning,
what the system brought about an error. -/
def dispositionLine? (job : Job) (outcome : Outcome) : Disposition → Option LogLine
  | .completed => none
  | .cancelled => some (line .warn "Job cancelled" job [groupField job])
  | disposition =>
    match outcome with
    | .ok _ => none
    | .error failure =>
      let soft := disposition = .softFailed
      let fields := [groupField job, errorField failure.logText]
      match failure with
      | .unclassified _ => some (line .error "Job failed with unclassified error" job fields)
      | _ =>
        if failure.isByCustomer then
          let message :=
            if soft then "Job soft failed due to customer caused issue"
            else "Job failed due to customer caused issue"
          some (line .warn message job fields)
        else some (line .error (if soft then "Job soft failed" else "Job failed") job fields)

/-- The event for a result that the store took. -/
def event (job : Job) (outcome : Outcome) : Disposition → Event
  | .completed => .jobCompleted job.id job.queue
  | .cancelled => .jobCancelled job.id job.queue
  | disposition =>
    let error := match outcome with
      | .ok _ => ""
      | .error failure => failure.message
    .jobFailed job.id job.queue (disposition = .softFailed) error

/-- The record that is handed to the store. -/
def finalRecord (job : Job) (outcome : Outcome) (disposition : Disposition) : Job :=
  { job with status := disposition.status, result := outcome.result? }

/-- Starts the handler of the job, if there is one, and its heartbeats. -/
def begin (s : Site) (x : Execution) : Progress Execution ExecutionResult × Site :=
  match s.registry.handler? x.job with
  | none =>
    let s := s.writeLog (line .warn "Not supported job type" x.job
      [("queue_type", .text x.job.queue.name)])
    (.done .unsupported, s.publish (.jobSkipped x.job.id x.job.queue))
  | some handler =>
    let s := (s.writeLog (line .info "Job starting" x.job [])).publish
      (.jobStarted x.job.id x.job.queue)
    let (token, s) := s.childToken x.shutdown
    let s := if x.job.cancelRequested then (s.abandon token).2 else s
    let period := Heartbeat.effectivePeriod s.timing.beatPeriod
    let (first, s) := s.jitter period
    let (heartbeat, s) := (s.hold token).spawn (.heartbeat x.job.snapshot period first token)
    let (invocation, s) := Invocation.start s handler x.job token
    (.more { x with since := s.clock, phase := .handling invocation token heartbeat }, s)

/-- Decides what becomes of the job when its handler has come to an outcome. -/
def decide (s : Site) (x : Execution) (token : Token) (outcome : Outcome) :
    Progress Execution ExecutionResult × Site :=
  match Disposition.classify outcome (s.tokens.isAbandoned token) (s.isCancelled x.shutdown) with
  | none =>
    let s := s.writeLog (line .info "Job interrupted by shutdown, lease left to expire" x.job
      [x.lengthField s])
    (.done .interrupted, (s.publish (.jobInterrupted x.job.id x.job.queue)).release token)
  | some disposition =>
    let s := match dispositionLine? x.job outcome disposition with
      | some l => s.writeLog l
      | none => s
    let record := finalRecord x.job outcome disposition
    (.more { x with phase := .finalizing token disposition outcome record .start }, s)

def conclude (s : Site) (x : Execution) (disposition : Disposition) (outcome : Outcome) (record : Job) :
    Except Refusal Settlement → ExecutionResult × Site
  | .ok _ =>
    let s :=
      if disposition = .completed then
        s.writeLog (line .info "Job completed" record [groupField record, x.lengthField s])
      else s
    (.finalized disposition true, s.publish (event record outcome disposition))
  | .error refusal =>
    (.finalized disposition false,
      s.writeLog (line .error "Job failed to complete" record
        [groupField record, ("disposition", .text disposition.title),
          errorField refusal.toError.message]))

/-- One move of an execution, in its span. -/
def step (s : Site) (x : Execution) : Progress Execution ExecutionResult × Site :=
  s.within (span x.job) fun s => match x.phase with
  | .fresh => begin s x
  | .handling invocation token heartbeat =>
    let (progress, s) := invocation.step s
    match progress with
    | .more i => (.more { x with phase := .handling i token heartbeat }, s)
    | .wait w i => (.wait w { x with phase := .handling i token heartbeat }, s)
    | .crash => (.crash, s)
    | .done outcome => decide (s.stop heartbeat) x token outcome
  | .finalizing token disposition outcome record stage =>
    let stay (stage : CallStage) : Execution :=
      { x with phase := .finalizing token disposition outcome record stage }
    let (progress, s) := s.callComplete stage record disposition.force none
    match progress with
    | .more stage => (.more (stay stage), s)
    | .wait w stage => (.wait w (stay stage), s)
    | .crash => (.crash, s.release token)
    | .done answer =>
      let (result, s) := x.conclude s disposition outcome record answer
      (.done result, s.release token)

/-- What is left behind when an execution is dropped: its heartbeats stop. -/
def drop (s : Site) (x : Execution) : Site :=
  match x.phase with
  | .fresh => s
  | .handling _ token heartbeat => (s.stop heartbeat).release token
  | .finalizing token _ _ _ _ => s.release token

end Execution

end LeasedWork.Engine
