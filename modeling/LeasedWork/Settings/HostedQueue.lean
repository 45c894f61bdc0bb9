import LeasedWork.Number.Literal
import LeasedWork.Queue
import LeasedWork.Settings.Environment

/-!
# Lists of hosted queues

A list such as `bulk_delete:2,export,!reindex` names the queues to host, how many loops each one
gets, and which ones are switched off. The first entry that is not well formed decides the error.
-/
namespace LeasedWork

/-- One queue of a list. -/
structure HostedQueue where
  queue : Queue
  enabled : Bool
  /-- How many loops poll the queue. -/
  workers : Nat
  deriving DecidableEq, Inhabited, Repr

/-- What is wrong with an entry of a list, which is quoted. -/
inductive EntryFault where
  | badCount (entry : List Char)
  | zeroCount (entry : List Char)
  | unknownQueue (entry : List Char)
  deriving DecidableEq, Inhabited, Repr

def EntryFault.message : EntryFault → String
  | badCount entry => "invalid worker count in queue entry '" ++ String.ofList entry ++ "'"
  | zeroCount entry => "worker count must be at least 1 in queue entry '" ++ String.ofList entry ++ "'"
  | unknownQueue entry => "unknown queue in entry '" ++ String.ofList entry ++ "'"

def EntryFault.toError (fault : EntryFault) : Error := .config fault.message

namespace HostedQueue

/-- How many loops a queue gets if nothing is said. -/
def defaultWorkers : Nat := 1

/-- A queue with the default number of loops. -/
def ofQueue (queue : Queue) : HostedQueue := ⟨queue, true, defaultWorkers⟩

/-- The same queue with another number of loops, at least one. -/
def withWorkers (h : HostedQueue) (n : Nat) : HostedQueue := { h with workers := max n 1 }

/-- The entries of a list: its pieces between commas without blanks around them, empty ones left
out. -/
def entries (text : List Char) : List (List Char) :=
  ((Text.pieces ',' text).map Text.trim).filter (· ≠ [])

/-- Whether an entry is switched on, and what it says besides. -/
def splitSwitch : List Char → Bool × List Char
  | '!' :: rest => (false, rest)
  | entry => (true, entry)

/-- The name of an entry and the number of loops it asks for. -/
def splitWorkers (entry rest : List Char) : Except EntryFault (List Char × Nat) :=
  match Text.cut? ':' rest with
  | none => .ok (rest, defaultWorkers)
  | some (name, count) =>
    match Number.count? (Text.trim count) with
    | none => .error (.badCount entry)
    | some 0 => .error (.zeroCount entry)
    | some n => .ok (name, n)

def ofEntry (entry : List Char) : Except EntryFault HostedQueue :=
  let (enabled, rest) := splitSwitch entry
  match splitWorkers entry rest with
  | .error fault => .error fault
  | .ok (name, workers) =>
    match Queue.parse? name with
    | none => .error (.unknownQueue entry)
    | some queue => .ok ⟨queue, enabled, workers⟩

def parseList (text : List Char) : Except EntryFault (List HostedQueue) :=
  (entries text).mapM ofEntry

/-- The variable that holds the list of hosted queues. -/
def listVariable : String := "TASKHOST_QUEUES"

/-- The list that an environment gives; none is an empty list. -/
def listOfEnvironment (env : Environment) : Except EntryFault (List HostedQueue) :=
  match env.text? listVariable with
  | some value => parseList value.toList
  | none => .ok []

end HostedQueue

end LeasedWork
