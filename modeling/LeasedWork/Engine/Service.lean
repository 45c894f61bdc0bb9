import LeasedWork.Engine.Fleet

/-!
# The hosting service

The service waits until the storage is ready and then runs a pool for every queue that is switched
on. If one pool ends before shutdown, the others are stopped too.
-/
namespace LeasedWork.Engine

/-- What the service is doing. -/
inductive ServicePhase where
  | fresh
  /-- Waiting until the storage is ready. -/
  | waiting
  | watching (pools : Fleet)
  deriving Inhabited, Repr

/-- The service that hosts queues. -/
structure Service where
  queues : List HostedQueue
  worker : String
  shutdown : Token
  phase : ServicePhase
  deriving Inhabited, Repr

namespace Service

def fresh (queues : List HostedQueue) (worker : String) (shutdown : Token) : Service :=
  ⟨queues, worker, shutdown, .fresh⟩

def hosted (service : Service) : List HostedQueue := service.queues.filter (·.enabled)

/-- Where the lines of the service come from. -/
def target : String := "taskhost_jobs::service"

def line (message : String) : LogLine := ⟨.info, target, message, []⟩

/-- Starts a pool for each of some queues. -/
def spawnPools (worker : String) (scope : Token) :
    List HostedQueue → Site → List TaskId × Site
  | [], s => ([], s)
  | h :: rest, s =>
    let s := s.writeLog ⟨.info, target, "Hosting queue",
      [("queue_type", .text h.queue.name), ("workers", .integer h.workers)]⟩
    let (id, s) := s.spawn (.pool h.queue h.workers worker scope)
    let (ids, s) := spawnPools worker scope rest s
    (id :: ids, s)

/-- One move of the task of the service. -/
def step (s : Site) (service : Service) : Progress Service Unit × Site :=
  match service.phase with
  | .fresh =>
    if service.hosted = [] then
      (.done (), s.writeLog (line "No queues enabled, hosting service idle"))
    else (.wait (.either (.cancel service.shutdown) .ready) { service with phase := .waiting }, s)
  | .waiting =>
    if s.isCancelled service.shutdown then
      (.done (), s.writeLog (line "Shutdown requested before storage was ready"))
    else
      let (scope, s) := s.childToken service.shutdown
      let (pools, s) := spawnPools service.worker scope service.hosted s
      (.more { service with
        phase := .watching ⟨pools, false, scope, service.shutdown, "queue pool"⟩ }, s)
  | .watching pools =>
    let (progress, s) := pools.step s
    match progress with
    | .more pools => (.more { service with phase := .watching pools }, s)
    | .wait w pools => (.wait w { service with phase := .watching pools }, s)
    | .crash => (.crash, s)
    | .done () => (.done (), s.writeLog (line "Hosting service stopped"))

end Service

end LeasedWork.Engine
