import LeasedWork.Error

/-!
# Log lines

A log line has a level, the part of the program it comes from, a message, and named fields. It may
be written in a span, a stretch of work with a name and fields of its own.
-/
namespace LeasedWork

/-- How severe a log line is, the most severe first. -/
inductive Level where
  | error
  | warn
  | info
  | debug
  | trace
  deriving DecidableEq, Inhabited, Repr

namespace Level

/-- The rank of a level; a smaller one is more severe. -/
def rank : Level → Nat
  | error => 1
  | warn => 2
  | info => 3
  | debug => 4
  | trace => 5

/-- The name of a level in the log. -/
def name : Level → String
  | error => "ERROR"
  | warn => "WARN"
  | info => "INFO"
  | debug => "DEBUG"
  | trace => "TRACE"

/-- Whether a line of this level is at least as severe as a threshold. -/
def isWithin (level threshold : Level) : Bool := level.rank ≤ threshold.rank

end Level

/-- The value of a field. -/
inductive FieldValue where
  | integer (n : Int)
  /-- A text as it is displayed. -/
  | text (s : String)
  /-- A text that is quoted where people read it. -/
  | quoted (s : String)
  | bool (b : Bool)
  deriving DecidableEq, Inhabited, Repr

/-- One line of the log. -/
structure LogLine where
  level : Level
  /-- The part of the program that the line comes from. -/
  target : String
  message : String
  fields : List (String × FieldValue)
  deriving DecidableEq, Inhabited, Repr

/-- A stretch of work in which lines are written. -/
structure Span where
  level : Level
  name : String
  /-- The part of the program that the work belongs to. -/
  target : String
  fields : List (String × FieldValue)
  deriving DecidableEq, Inhabited, Repr

/-- A line that was written. -/
structure LogEntry where
  /-- When it was written, in milliseconds. -/
  time : Nat
  /-- The span in which it was written. -/
  span : Option Span
  line : LogLine
  deriving DecidableEq, Inhabited, Repr

namespace LogLine

def field? (line : LogLine) (name : String) : Option FieldValue := line.fields.lookup name

def jobField (id : Int) : String × FieldValue := ("job_id", .integer id)

def errorField (text : String) : String × FieldValue := ("error", .text text)

def optionText : Option Int → String
  | none => "None"
  | some n => "Some(" ++ decimalText n ++ ")"

end LogLine

end LeasedWork
