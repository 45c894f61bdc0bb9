import LeasedWork.Job
import LeasedWork.Failure
import LeasedWork.Json.Member
import LeasedWork.Time.Stamp

/-!
# Job records as JSON

A record is written with all its members in a fixed order, absent ones as null and dates as time
stamps. Reading accepts the members in any order and leaves out nothing but absent ones.
-/
namespace LeasedWork

open Json (Tree writeString)
open Time (Instant)

def writeOptional {α : Type} (write : α → List Char) : Option α → List Char
  | none => "null".toList
  | some a => write a

def writeStamp (t : Instant) : List Char := '"' :: (t.stamp ++ ['"'])

def writeBool (b : Bool) : List Char := if b then "true".toList else "false".toList

/-- The members of an object, already written, with their names. -/
def writeRecord (members : List (String × List Char)) : List Char :=
  let written := members.map fun member => writeString member.1 ++ ':' :: member.2
  '\x7b' :: ((written.intersperse [',']).flatten ++ ['\x7d'])

/-- The text of a queue in a record. -/
def Queue.write (q : Queue) : List Char := writeString q.name

/-- The text of a status in a record. -/
def Status.write (s : Status) : List Char := writeString s.name

def Queue.read? (text : String) : Option Queue :=
  (Tree.read? Json.depthLimit text.toList).bind (Tree.constant? Queue.named?)

def Status.read? (text : String) : Option Status :=
  (Tree.read? Json.depthLimit text.toList).bind (Tree.constant? Status.named?)

def readStamp? (tree : Tree) : Option Instant := tree.string?.bind fun s => Instant.ofStamp? s.toList

namespace Job

/-- The members of a record with their texts. -/
def members (job : Job) : List (String × List Char) :=
  [("id", Text.digitsOfInt job.id),
   ("queue_type", job.queue.write),
   ("group_id", writeOptional Text.digitsOfInt job.group),
   ("version", Text.digitsOfInt job.version),
   ("status", job.status.write),
   ("priority", Text.digitsOfInt job.priority),
   ("definition", writeOptional writeString job.definition),
   ("result", writeOptional writeString job.result),
   ("worker", writeOptional writeString job.worker),
   ("create_date", writeStamp job.created),
   ("start_date", writeOptional writeStamp job.started),
   ("end_date", writeOptional writeStamp job.ended),
   ("heartbeat_date_time", writeStamp job.beat),
   ("cancel_requested", writeBool job.cancelRequested)]

def write (job : Job) : List Char := writeRecord job.members

/-- The names of the members of a record. -/
def memberNames : List String :=
  ["id", "queue_type", "group_id", "version", "status", "priority", "definition", "result",
   "worker", "create_date", "start_date", "end_date", "heartbeat_date_time", "cancel_requested"]

def ofMembers? (m : List (String × Tree)) : Option Job := do
  let id ← Json.required? Tree.integer? "id" m
  let queue ← Json.required? (Tree.constant? Queue.named?) "queue_type" m
  let group ← Json.absentable? Tree.integer? "group_id" m
  let version ← Json.required? Tree.integer? "version" m
  let status ← Json.required? (Tree.constant? Status.named?) "status" m
  let priority ← Json.required? Tree.integer? "priority" m
  let definition ← Json.absentable? Tree.string? "definition" m
  let result ← Json.absentable? Tree.string? "result" m
  let worker ← Json.absentable? Tree.string? "worker" m
  let created ← Json.required? readStamp? "create_date" m
  let started ← Json.absentable? readStamp? "start_date" m
  let ended ← Json.absentable? readStamp? "end_date" m
  let beat ← Json.required? readStamp? "heartbeat_date_time" m
  let cancelRequested ← Json.required? Tree.bool? "cancel_requested" m
  some ⟨id, queue, group, version, status, priority, definition, result, worker, created, started,
    ended, beat, cancelRequested⟩

/-- The record that a text holds. Members that a record does not have may nest to any depth. -/
def read? (text : String) : Option Job :=
  ((Tree.read? text.length text.toList).bind (Tree.members? memberNames)).bind ofMembers?

end Job

namespace FailureReport

def read? (text : String) : Option FailureReport := do
  let tree ← Tree.read? text.length text.toList
  let m ← tree.members? ["message", "stack_trace"]
  let message ← Json.required? Tree.string? "message" m
  let trace ← Json.required? Tree.string? "stack_trace" m
  some ⟨message, trace⟩

end FailureReport

end LeasedWork
