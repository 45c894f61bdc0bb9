import LeasedWork.Store

/-!
# Actions

What can be done to a running host from outside: by its surroundings, or by a handler while it
runs. Leases taken by an action are remembered under names, so that later actions can use them,
with some of their members changed.
-/
namespace LeasedWork.Engine

open Time (DateFault)

/-- Members of a record to be changed before it is used. -/
structure Overrides where
  id : Option Int
  version : Option Int
  group : Option (Option Int)
  status : Option Status
  result : Option (Option String)
  definition : Option (Option String)
  worker : Option (Option String)
  cancelRequested : Option Bool
  deriving DecidableEq, Inhabited, Repr

def Overrides.none : Overrides :=
  ⟨.none, .none, .none, .none, .none, .none, .none, .none⟩

def Overrides.apply (o : Overrides) (job : Job) : Job :=
  { job with
    id := o.id.getD job.id
    version := o.version.getD job.version
    group := o.group.getD job.group
    status := o.status.getD job.status
    result := o.result.getD job.result
    definition := o.definition.getD job.definition
    worker := o.worker.getD job.worker
    cancelRequested := o.cancelRequested.getD job.cancelRequested }

/-- Something done to a host from outside its engine. -/
inductive Action where
  | enqueue (queue : Queue) (definition : String) (group : Option Int) (count : Nat)
  | requestCancel (id : Int)
  | age (id seconds : Int)
  | get (id : Int)
  | group (group : Int)
  | setInitialized (value : Bool)
  | setFailing (call : Call) (value : Bool)
  | isInitialized
  | notifyReady
  | shutdown
  | dequeue (request : LeaseRequest) (cancelled : Bool) (saveAs : Option String)
  | dequeueNow (queue : Queue) (worker : String) (saveAs : Option String)
  | lookup (id : Int) (saveAs : Option String)
  | heartbeat (lease : String) (overrides : Overrides)
  | complete (lease : String) (overrides : Overrides) (force : Bool)
  | completeCalls
  | heartbeatCount (id : Int)
  | dequeueCount
  deriving Inhabited, Repr

def Action.name : Action → String
  | enqueue _ _ _ _ => "enqueue"
  | requestCancel _ => "request_cancel"
  | age _ _ => "age"
  | get _ => "get"
  | group _ => "group"
  | setInitialized _ => "set_initialized"
  | setFailing call _ => "fail_" ++ call.name
  | isInitialized => "is_initialized"
  | notifyReady => "notify_ready"
  | shutdown => "shutdown"
  | dequeue _ _ _ => "dequeue"
  | dequeueNow _ _ _ => "dequeue_now"
  | lookup _ _ => "lookup"
  | heartbeat _ _ => "heartbeat"
  | complete _ _ _ => "complete"
  | completeCalls => "complete_calls"
  | heartbeatCount _ => "heartbeat_count"
  | dequeueCount => "dequeue_count"

/-- What an action comes to. -/
inductive Reply where
  | nothing
  | bool (b : Bool)
  | count (n : Nat)
  | ids (ids : List Int)
  | job (job : Option Job)
  | statuses (jobs : List (Int × Status))
  | calls (calls : List CompleteCall)
  | accepted
  | refused (refusal : Refusal)
  /-- No lease is remembered under the name. -/
  | noLease
  /-- The action itself broke down, because there is no date. -/
  | crashed (fault : DateFault)
  deriving Inhabited, Repr

end LeasedWork.Engine
