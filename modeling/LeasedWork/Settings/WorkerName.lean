import LeasedWork.Settings.Environment
import LeasedWork.Text.Blank

/-!
# The name of a worker

Leases are held under a name. It is given by a variable; failing that it is the name of the host
and a suffix that tells processes apart.
-/
namespace LeasedWork

/-- Where the name of a worker comes from. -/
inductive WorkerName where
  /-- The name was set. -/
  | given (name : String)
  /-- The name of the host is to get a random suffix. -/
  | onHost (host : String)
  deriving DecidableEq, Inhabited, Repr

namespace WorkerName

/-- The host if it has no name either. -/
def defaultHost : String := "taskhost"

/-- The name that an environment gives; a blank one counts as none. -/
def ofEnvironment (env : Environment) : WorkerName :=
  match env.text? "WORKER_NAME" with
  | some value =>
    let name := Text.trimString value
    if name = "" then .onHost ((env.text? "HOSTNAME").getD defaultHost) else .given name
  | none => .onHost ((env.text? "HOSTNAME").getD defaultHost)

/-- The name, with the suffix that a name of a host gets. -/
def text (suffix : String) : WorkerName → String
  | given name => name
  | onHost host => host ++ "-" ++ suffix

end WorkerName

end LeasedWork
