import EventBuckets.Replay.Job

/-!
# The command

The command replays the input named in a configuration file, whose settings may be overridden
by variables.  Lines go to the output of the settings, or to standard output.  A failure ends with
the exit code 1, after the lines written so far; a variable that is cut off ends with its own.
-/

namespace EventBuckets.Command

/-- what reading an open file gives -/
def readSource (file : IO.FS.Handle) : IO Source := do
  try return .text (← file.readToEnd) catch _ => return .unreadable

/-- what opening a file for reading gives -/
def openSource (path : String) : IO Source := do
  try readSource (← IO.FS.Handle.mk path .read) catch _ => return .missing

/-- writes a file, and says whether that was possible -/
def writeFile (path text : String) : IO Bool := do
  try
    IO.FS.writeFile path text
    return true
  catch _ => return false

def overrides : IO (List (String × String)) :=
  Settings.variableNames.filterMapM fun name => do
    return (← IO.getEnv name).map fun text => (name, text)

/-- ends with an exit code and a message -/
def failWith (code : Nat) (message : String) : IO UInt32 := do
  IO.eprintln ("Error: " ++ message)
  return UInt32.ofNat code

def fail : String → IO UInt32 := failWith 1

def lineText (lines : List String) : String := String.join (lines.map fun line => line ++ "\n")

/-- creates the output, if it is a file -/
def openOutput (s : Settings) : IO Sink := do
  match s.output with
  | some path => return if ← writeFile path "" then .file else .refused
  | none => return .standardOutput

/-- writes lines to the output, and says whether that was possible -/
def writeLines (s : Settings) (lines : List String) : IO Bool := do
  match s.output with
  | some path => writeFile path (lineText lines)
  | none =>
    let out ← IO.getStdout
    out.putStr (lineText lines)
    out.flush
    return true

/-- writes the lines and the final state of a job -/
def finish (s : Settings) (report : Report) : IO UInt32 := do
  if !(← writeLines s (report.lines.getD [])) then return (← fail JobError.outputFull.message)
  match s.snapshot, report.snapshot with
  | some path, some text =>
    if !(← writeFile path text) then return (← fail JobError.noSnapshot.message)
  | _, _ => pure ()
  match report.error with
  | some e => fail e.message
  | none => return 0

/-- the document in a configuration file; a missing file says nothing -/
def document? (path : String) : IO (Option Json) := do
  match ← openSource path with
  | .missing => return some (.object [])
  | .text text => return Json.parse text
  | .unreadable => return none

/-- runs the job of a configuration file -/
def run (path : String) : IO UInt32 := do
  match Settings.resolve (← document? path) (← overrides) with
  | .error e => failWith e.exitCode e.message
  | .ok s =>
    let input ← openSource s.input
    let output ← if input = .missing then pure .refused else openOutput s
    let report := Job.run s ⟨input, output, .file⟩
    if report.lines.isSome then finish s report
    else fail ((report.error.map JobError.message).getD "")

end EventBuckets.Command

def main (args : List String) : IO UInt32 :=
  match args with
  | [path] => EventBuckets.Command.run path
  | _ => do
    IO.eprintln "usage: event-buckets CONFIG"
    return 2
