import EventBuckets.Checksum.Folded
import EventBuckets.Gatherer.Snapshot
import EventBuckets.Replay
import EventBuckets.Replay.Files
import EventBuckets.Settings
import EventBuckets.State.Json
import EventBuckets.Text.Blank

/-!
# Replay of a file

* `inputLines`  the lines of a text, without the ends of lines;
* `records`     the records among the lines: blank lines and lines that are no record are passed
                over;
* `Access`      what opening the files of a job gives;
* `Job.run`     the lines to write, the final state, and what went wrong.  The state is read back,
                and has to give the same checksum.
-/

namespace EventBuckets

/-- a line without the carriage return at its end -/
def withoutReturn (line : String) : String :=
  match line.toList.reverse with
  | '\r' :: r => String.ofList r.reverse
  | _ => line

/-- the lines of a text; what follows the last end of line is a line unless it is empty -/
def inputLines (text : String) : List String :=
  let pieces := text.splitOn "\n"
  pieces.dropLast.map withoutReturn ++ pieces.getLast?.toList.filter fun line => !line.isEmpty

def records (lines : List String) : List Record :=
  (lines.filter fun line => !line.toList.all isBlank).filterMap Record.ofText?

inductive JobError where
  | noInput
  | noOutput
  | inputUnreadable
  | outputFull
  | replay (cause : ReplayError)
  | noSnapshot
  | snapshotFull
  | unreadable
  | restore (cause : RestoreError)
  | differs
deriving DecidableEq

def JobError.message : JobError → String
  | noInput => "the input cannot be opened"
  | noOutput => "the output cannot be created"
  | inputUnreadable => "the input cannot be read"
  | outputFull => "the output cannot be written"
  | replay cause => cause.message
  | noSnapshot => "the snapshot cannot be created"
  | snapshotFull => "the snapshot cannot be written"
  | unreadable => "the snapshot cannot be read"
  | restore cause => cause.message
  | differs => "the snapshot does not restore to the persisted state"

structure Access where
  input : Source
  output : Sink
  snapshot : Sink

/-- what the files of settings give; lines without a file go to standard output -/
def Files.access (fs : Files) (s : Settings) : Access :=
  ⟨fs.source s.input, s.output.elim .standardOutput fs.sink, s.snapshot.elim .refused fs.sink⟩

structure Report where
  error : Option JobError
  /-- the lines of the output, if it was opened -/
  lines : Option (List String)
  snapshot : Option String

namespace Job

def snapshotFault? (s : Settings) (g : Gatherer) (text : String) : Option JobError :=
  match Document.ofJson? text with
  | none => some .unreadable
  | some d =>
    match Gatherer.restore s.kind s.gatherer d with
    | .error e => some (.restore e)
    | .ok restored => if checksum restored = checksum g then none else some .differs

def keep (s : Settings) (sink : Sink) (g : Gatherer) : Option JobError × Option String :=
  let text := g.document.toJson
  match sink with
  | .refused => (some .noSnapshot, none)
  | .full => (some .snapshotFull, none)
  | .void | .standardOutput => (some .unreadable, none)
  | .file => (snapshotFault? s g text, some text)

/-- a report with no state, where the output is open -/
def report (sink : Sink) (lines : Array FeatureLine) (error : Option JobError) : Report :=
  if sink = .full ∧ !lines.isEmpty then ⟨some (error.getD .outputFull), some [], none⟩
  else ⟨error, some (lines.toList.map FeatureLine.render), none⟩

def close (s : Settings) (a : Access) (written : Array FeatureLine) (r : Replay) : Report :=
  let (lines, r) := r.finish
  let done := report a.output (written ++ lines) none
  match done.error, s.snapshot, r.gatherer? with
  | none, some _, some g =>
    let (error, snapshot) := keep s a.snapshot g
    { done with error, snapshot }
  | _, _, _ => done

def replay (s : Settings) (a : Access) (r : Replay) (text : String) : Report :=
  match r.feedAll #[] (records (inputLines text)) with
  | (written, .ok r) => close s a written r
  | (written, .error e) => report a.output written (some (.replay e))

/-- a job: the input is opened first, then the output -/
def run (s : Settings) (a : Access) : Report :=
  if a.input = .missing then ⟨some .noInput, none, none⟩
  else if a.output = .refused then ⟨some .noOutput, none, none⟩
  else
    match Replay.new s.kind s.gatherer, a.input with
    | .error e, _ => report a.output #[] (some (.replay (.config e)))
    | .ok r, .text text => replay s a r text
    | .ok _, _ => report a.output #[] (some .inputUnreadable)

end Job

end EventBuckets
