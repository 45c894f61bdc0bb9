import LeasedWork.Host.Ensemble
import LeasedWork.LogLine.Text
import LeasedWork.Settings.LogOutput
import LeasedWork.Settings.Seed
import LeasedWork.Settings.WorkerName

/-!
# The server

A server reads its settings from an environment, queues the jobs it is asked to, and hosts queues
until it is interrupted. All its handlers do nothing. What is wrong with its settings is reported
before it hosts anything.
-/
namespace LeasedWork.Host

open Engine

/-- Why a server does not start. -/
inductive StartFault where
  | badQueues (fault : EntryFault)
  | badSeeds (fault : SeedFault)
  deriving DecidableEq, Inhabited, Repr

namespace StartFault

def diagnostic : StartFault → Diagnostic
  | badQueues fault =>
    (Diagnostic.ofMessage fault.toError.message).within ("Invalid " ++ HostedQueue.listVariable)
  | badSeeds fault => fault.diagnostic

/-- What is written to the standard error output. -/
def report (fault : StartFault) : String := "Error: " ++ fault.diagnostic.report ++ "\n"

end StartFault

/-- What a server hosts, and in whose name. -/
structure Server where
  queues : List HostedQueue
  worker : String
  deriving DecidableEq, Inhabited, Repr

namespace Server

def line (message : String) (fields : List (String × FieldValue)) : LogLine :=
  ⟨.info, "taskhost", message, fields⟩

/-- Every queue that jobs are meant for, with one loop. -/
def everyQueue : List HostedQueue :=
  (Queue.all.filter (· ≠ .unknown)).map HostedQueue.ofQueue

/-- The variable that holds the list of seeds. -/
def seedVariable : String := "TASKHOST_SEED_JOBS"

/-- Queues the jobs that an environment asks for. -/
def seed (env : Environment) (s : Site) : Except SeedFault Unit × Site :=
  match env.text? seedVariable with
  | none => (.ok (), s)
  | some text =>
    let (planted, store) := Seed.plant text.toList s.now s.store
    let s := { s with store := store }
    match planted with
    | .error fault => (.error fault, s)
    | .ok count => (.ok (), s.writeLog (line "Seeded queue" [("jobs", .integer count)]))

/-- Registers the handler that does nothing for some queues. -/
def registerAll (s : Site) (queues : List HostedQueue) : Site :=
  queues.foldl
    (fun s h =>
      { s with registry := s.registry.register h.queue none .noop }.writeLog
        ⟨.debug, "taskhost_jobs::registry", "Registered job handler",
          [("queue_type", .text h.queue.name)]⟩) s

/-- Reads the settings and gets the site ready for them; `suffix` tells processes on one host
apart. -/
def prepare (env : Environment) (suffix : String) (s : Site) : Except StartFault Server × Site :=
  let s := s.writeLog (LogOutput.ofEnvironment env).firstLine
  let s := { s with timing := Timing.ofEnvironment env }
  match HostedQueue.listOfEnvironment env with
  | .error fault => (.error (.badQueues fault), s)
  | .ok listed =>
    let s :=
      if listed = [] then
        s.writeLog (line (HostedQueue.listVariable ++
          " not set, hosting every queue with one worker") [])
      else s
    let queues := if listed = [] then everyQueue else listed
    let worker := (WorkerName.ofEnvironment env).text suffix
    let s := s.writeLog (line "Configuration loaded"
      [("worker", .text worker), ("config", .text s.timing.summary)])
    match seed env s with
    | (.error fault, s) => (.error (.badSeeds fault), s)
    | (.ok (), s) => (.ok ⟨queues, worker⟩, (registerAll s queues).notifyReady)

/-- The tasks of a server on its site, and the number of the task of the hosting service. -/
def ensemble (server : Server) (s : Site) : TaskId × Ensemble :=
  let sys := (Ensemble.ofSite s).host (.eventLog .fresh)
  let (id, s) := sys.site.spawn (.service server.queues server.worker s.shutdown)
  (id, { sys with site := s }.settle)

/-- The last line of the log of a server that was started. -/
def lastLine : LogLine := line "taskhost stopped" []

def interrupt (sys : Ensemble) : Ensemble :=
  let s := sys.site.writeLog (line "Shutdown signal received" [])
  { sys with site := s.cancel s.shutdown }.wake

/-- Whether a task has ended and nothing else can go on without waiting. -/
def isAtRest (id : TaskId) (sys : Ensemble) : Bool := sys.site.hasEnded id && sys.isQuiet

/-- Runs a server that is interrupted as soon as its site fulfils a condition and nothing can go on
without waiting; each of the two stages takes at most `fuel` moves. -/
def run (interrupted : Site → Bool) (fuel : Nat) (server : Server) (s : Site) : Site :=
  let (id, sys) := server.ensemble s
  let sys := sys.runUntil
    (fun sys => isAtRest id sys || sys.isQuiet && interrupted sys.site) fuel
  let sys := if sys.site.hasEnded id then sys else (interrupt sys).runUntil (isAtRest id) fuel
  sys.site.writeLog lastLine

/-- What a server leaves behind: its log, and the fault if it did not start. -/
structure Trail where
  log : List LogEntry
  fault : Option StartFault
  deriving DecidableEq, Inhabited, Repr

/-- Starts a server in an environment and runs it. -/
def serve (env : Environment) (suffix : String) (interrupted : Site → Bool) (fuel : Nat) : Trail :=
  match prepare env suffix Site.initial with
  | (.error fault, s) => ⟨s.log.reverse, some fault⟩
  | (.ok server, s) => ⟨(server.run interrupted fuel s).log.reverse, none⟩

end Server

end LeasedWork.Host
