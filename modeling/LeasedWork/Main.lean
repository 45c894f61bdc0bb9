import LeasedWork.Host.Server
import LeasedWork.Settings.VariableFile

/-!
# The program

The program hosts queues for the settings in its environment and in a file of variables, in the
time of the machine, and writes its log as it goes. The end of the standard input interrupts it.
-/
namespace LeasedWork.Program

open Engine Host

def settingNames : List String :=
  ["LOG_FORMAT", "LOG_FILE", "LOG_ANSI", "NO_COLOR", "RUST_LOG", "WORKER_NAME", "HOSTNAME",
   HostedQueue.listVariable, Server.seedVariable] ++ Timing.settingNames

/-- The file of variables in the working directory. -/
def variableFile : String := ".env"

/-- The text of the file of variables; a file that cannot be read adds nothing. -/
def readVariableFile : IO String :=
  try IO.FS.readFile variableFile catch _ => return ""

/-- The environment of the program with the variables of the file. -/
def readEnvironment : IO Environment := do
  let text ← readVariableFile
  let bindings ← (settingNames ++ VariableFile.candidates text).filterMapM fun name => do
    return (← IO.getEnv name).map fun value => (name, value.toUTF8)
  return VariableFile.load ⟨bindings⟩ text

/-- A suffix that tells processes on one host apart: eight hexadecimal digits. -/
def makeSuffix : IO String := do
  let digits ← (List.range 8).mapM fun _ => return Text.hexDigit (← IO.rand 0 15)
  return String.ofList digits

/-- How many random draws the program makes in advance. -/
def drawCount : Nat := 1000

/-- Draws of whole percents. -/
def makeDraws : IO Time.Draws := do
  return .ofList (← (List.range drawCount).mapM fun _ => IO.rand 0 99)

def lineText (output : LogOutput) (line : LogLine) : String :=
  if output.isJson then line.toJson.text else line.plain

/-- Writes the lines of a log after the first `written` ones; the answer says how many there are
now. -/
def writeLines (output : LogOutput) (written : Nat) (s : Site) : IO Nat := do
  let entries := s.log.reverse
  for entry in (entries.drop written).filter output.filter.admitsEntry do
    let text := lineText output entry.line
    match output.place? with
    | some place => IO.FS.withFile place .append fun file => file.putStrLn text
    | none => IO.println text
  return entries.length

/-- The longest time between two looks at the standard input, in milliseconds. -/
def lookPeriod : Nat := 50

/-- Lets tasks go on in the time of the machine, which showed `start` milliseconds in the
beginning, until the one that is waited for has ended. -/
partial def follow (output : LogOutput) (start : Nat) (input : Task (Except IO.Error Unit))
    (id : TaskId) (interrupted : Bool) (written : Nat) (sys : Ensemble) : IO Ensemble := do
  let written ← writeLines output written sys.site
  if sys.isQuiet then
    if sys.site.hasEnded id then return sys
    if !interrupted && (← IO.hasFinished input) then
      follow output start input id true written (Server.interrupt sys)
    else
      let now := (← IO.monoMsNow) - start
      match sys.nextDeadline?.map Ensemble.wholeMillis with
      | some time =>
        if time ≤ now then
          follow output start input id interrupted written (sys.advance?.getD sys)
        else
          IO.sleep (min lookPeriod (time - now)).toUInt32
          follow output start input id interrupted written sys
      | none =>
        IO.sleep lookPeriod.toUInt32
        follow output start input id interrupted written sys
  else follow output start input id interrupted written (sys.advance?.getD sys)

/-- Reads the standard input to its end. -/
partial def awaitEnd (input : IO.FS.Stream) : IO Unit := do
  if !(← input.getLine).isEmpty then awaitEnd input

/-- Runs the program; the result is its exit code. -/
def run : IO UInt32 := do
  let environment ← readEnvironment
  let output := LogOutput.ofEnvironment environment
  if let some directory := output.directory? then IO.FS.createDirAll directory
  let site := { Site.initial with draws := ← makeDraws }
  match Server.prepare environment (← makeSuffix) site with
  | (.error fault, site) =>
    let _ ← writeLines output 0 site
    IO.eprint fault.report
    return 1
  | (.ok server, site) =>
    let input ← IO.asTask (awaitEnd (← IO.getStdin))
    let (id, sys) := server.ensemble site
    let sys ← follow output (← IO.monoMsNow) input id false 0 sys
    let written := sys.site.log.length
    let _ ← writeLines output written (sys.site.writeLog Server.lastLine)
    return 0

end LeasedWork.Program

def main : IO UInt32 := LeasedWork.Program.run
