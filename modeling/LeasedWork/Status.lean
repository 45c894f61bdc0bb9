/-!
# The status of a job

A job is created, runs, and ends in one of three terminal statuses. What a worker may ask for is a
move from running to a terminal status; the moves that the store makes by itself are the store's
affair.
-/
namespace LeasedWork

/-- How far a job has come. -/
inductive Status where
  | created
  | running
  | completed
  | failed
  | cancelled
  deriving DecidableEq, Inhabited, Repr

namespace Status

def all : List Status := [created, running, completed, failed, cancelled]

def name : Status → String
  | created => "created"
  | running => "running"
  | completed => "completed"
  | failed => "failed"
  | cancelled => "cancelled"

def title : Status → String
  | created => "Created"
  | running => "Running"
  | completed => "Completed"
  | failed => "Failed"
  | cancelled => "Cancelled"

/-- Whether a job of this status is over. -/
def isTerminal : Status → Bool
  | completed | failed | cancelled => true
  | created | running => false

/-- Whether a job may move from one status to the other at a worker's request. -/
def canBecome : Status → Status → Bool
  | created, running => true
  | running, next => next.isTerminal
  | _, _ => false

/-- The status of exactly this name. -/
def named? (name : List Char) : Option Status := all.find? fun s => s.name.toList = name

theorem named?_name (s : Status) : named? s.name.toList = some s := by cases s <;> decide

theorem ne_running_of_isTerminal {s : Status} (h : s.isTerminal = true) : s ≠ running := by
  rintro rfl
  exact absurd h (by decide)

/-- A request for a terminal status succeeds exactly on a running job. -/
theorem canBecome_terminal {current next : Status} (h : next.isTerminal = true) :
    current.canBecome next = true ↔ current = running := by
  cases current <;> cases next <;> simp_all [canBecome, isTerminal]

end Status

end LeasedWork
