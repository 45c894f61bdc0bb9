import LeasedWork.Json.Reader
import LeasedWork.Queue
import LeasedWork.Status
import LeasedWork.Time.Instant

/-!
# Job records

A job is one unit of work that the store tracks. Its version counts its leases, so a record that a
worker holds names one lease by number and version; the snapshot of a record keeps just that.
-/
namespace LeasedWork

open Time (Instant)

/-- A unit of work and what is known of it. -/
structure Job where
  id : Int
  queue : Queue
  group : Option Int
  /-- How often the job has been leased. -/
  version : Int
  status : Status
  priority : Int
  /-- The serialized input. -/
  definition : Option String
  /-- The serialized output or error. -/
  result : Option String
  /-- The holder of the lease. -/
  worker : Option String
  created : Instant
  started : Option Instant
  ended : Option Instant
  /-- The last sign of life of the holder. -/
  beat : Instant
  cancelRequested : Bool
  deriving DecidableEq, Inhabited, Repr

namespace Job

def new (id : Int) (queue : Queue) (now : Instant) : Job where
  id := id
  queue := queue
  group := none
  version := 0
  status := .created
  priority := 0
  definition := none
  result := none
  worker := none
  created := now
  started := none
  ended := none
  beat := now
  cancelRequested := false

/-- The name of the member of a definition that tells kinds of jobs of one queue apart. -/
def kindMember : String := "typeId"

/-- The kind that a definition states: a 64-bit integer in a member of the outermost object. -/
def kindOf? (definition : String) : Option Int :=
  ((Json.Value.read? definition).bind (Json.Value.member? kindMember)).bind Json.Value.integer?

/-- The kind of a job, if it has a definition that states one. -/
def kind? (job : Job) : Option Int := job.definition.bind kindOf?

/-- The record that heartbeats carry: it names the lease and shares nothing that an execution may
change. -/
def snapshot (job : Job) : Job where
  id := job.id
  queue := job.queue
  group := job.group
  version := job.version
  status := .running
  priority := 0
  definition := none
  result := none
  worker := none
  created := job.created
  started := none
  ended := none
  beat := job.beat
  cancelRequested := false

/-- Whether the job may be leased by a worker that looks for new work. -/
def isWaiting (job : Job) : Bool := job.status = .created

end Job

end LeasedWork
