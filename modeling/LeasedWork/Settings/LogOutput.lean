import LeasedWork.LogFilter
import LeasedWork.Settings.Environment

/-!
# Where the log goes

Variables choose the form of the log, the file it is written to instead of the standard output,
whether plain text is coloured, and which lines are written.
-/
namespace LeasedWork

/-- How the log is written. -/
structure LogOutput where
  /-- The name of the form, as it was given. -/
  format : String
  /-- The path of the file, as it was given. -/
  file : Option String
  /-- Whether to colour plain text, if something was said about it. -/
  colour : Option Bool
  /-- Whether terminals are to be spared colours. -/
  sparesColour : Bool
  filter : LogFilter
  deriving DecidableEq, Inhabited, Repr

namespace LogOutput

def plainFormat : String := "text"

def jsonFormat : String := "json"

def ofEnvironment (env : Environment) : LogOutput where
  format := (env.text? "LOG_FORMAT").getD plainFormat
  file := env.text? "LOG_FILE"
  colour := (env.text? "LOG_ANSI").map fun value => value = "true" || value = "1"
  sparesColour := (env.text? "NO_COLOR").any (· ≠ "")
  filter := LogFilter.ofVariable (env.text? "RUST_LOG")

/-- Whether lines are JSON objects; only the exact name of that form asks for it. -/
def isJson (o : LogOutput) : Bool := o.format = jsonFormat

/-- Whether lines hold colours. Files get them only on request. -/
def isColoured (o : LogOutput) : Bool :=
  !o.isJson && o.colour.getD (o.file.isNone && !o.sparesColour)

/-- The name of the file if the path has none. -/
def defaultName : List Char := "taskhost.log".toList

def stepUp : List Char := ['.', '.']

/-- The parts of a path that lead somewhere. -/
def parts (path : List Char) : List (List Char) :=
  (Text.pieces '/' path).filter fun part => part ≠ [] ∧ part ≠ ['.']

/-- The name of the file that a path asks for. -/
def fileName (path : List Char) : List Char :=
  match (parts path).getLast? with
  | none => defaultName
  | some last => if last = stepUp then defaultName else last

/-- Follows a path from a directory, given from the inside out, as long as it stays below the
directory in which the path begins. -/
def follow? : List (List Char) → List (List Char) → Option (List (List Char))
  | here, [] => some here
  | here, part :: rest =>
    if part = stepUp then
      match here with
      | [] => none
      | _ :: outer => follow? outer rest
    else follow? (part :: here) rest

/-- The directory of the file of a path, if it lies below the working directory; from the inside
out. A path of slashes only names the working directory. -/
def directoryOf? (path : List Char) : Option (List (List Char)) :=
  if path.head? = some '/' ∧ parts path ≠ [] then none else follow? [] (parts path).dropLast

/-- A path from its parts, the last one first. -/
def join (parts : List (List Char)) : String :=
  "/".intercalate (parts.reverse.map String.ofList)

/-- Where the file of a path lies below the working directory, if it does. -/
def placeOf? (path : List Char) : Option String :=
  (directoryOf? path).map fun directory => join (fileName path :: directory)

/-- Where the file of an output lies below the working directory. -/
def place? (o : LogOutput) : Option String := o.file.bind fun path => placeOf? path.toList

/-- The directory of the file of an output, if it is another one than the working directory. -/
def directory? (o : LogOutput) : Option String :=
  ((o.file.bind fun path => directoryOf? path.toList).filter (· ≠ [])).map join

/-- The first line of a log, which says where it goes. -/
def firstLine (o : LogOutput) : LogLine :=
  ⟨.info, "taskhost", "Logging initialized",
    [("log_format", .text o.format), ("log_file", .quoted (o.file.getD "(stdout)"))]⟩

theorem fileName_ne_nil (path : List Char) : fileName path ≠ [] := by
  unfold fileName
  split
  · decide
  · next last h =>
    split
    · decide
    · intro hnil
      have := List.mem_of_getLast? h
      simp [parts, hnil] at this

end LogOutput

end LeasedWork
