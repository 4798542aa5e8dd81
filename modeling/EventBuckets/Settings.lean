import EventBuckets.Config.Json
import EventBuckets.Settings.Document
import EventBuckets.Settings.Variable

/-!
# Settings of a replay

Settings come from a document, with variables put over it.

* `Settings`          what to gather, and the files to read and write;
* `Settings.ofJson?`  the kind and the input are required;
* `Settings.resolve`  the settings of a document and variables;
* `LogLevel.ofText?`  a level by its name in any case, or by its number.
-/

namespace EventBuckets

inductive LogLevel where
  | error
  | warn
  | info
  | debug
  | trace
deriving DecidableEq, Repr

namespace LogLevel

/-- the levels in order, the first of which has number one -/
def all : List LogLevel := [error, warn, info, debug, trace]

def name : LogLevel → String
  | error => "error"
  | warn => "warn"
  | info => "info"
  | debug => "debug"
  | trace => "trace"

def ofText? (text : String) : Option LogLevel :=
  match readWord text with
  | some n => if n = 0 then none else all[n - 1]?
  | none => all.find? fun l => l.name.toList = text.toList.map Char.toLower

end LogLevel

structure Settings where
  level : LogLevel
  kind : SeriesKind
  gatherer : Config
  input : String
  /-- the file of lines, if they do not go to standard output -/
  output : Option String
  /-- the file of the final state -/
  snapshot : Option String

namespace Settings

def fieldNames : List String := ["logging", "kind", "gatherer", "input", "output", "snapshot"]

def float? : Json → Option Binary64
  | .number literal => readFloat literal
  | _ => none

/-- the member whose name comes first -/
def firstMember? : List (Option String × Json) → Option (String × Json)
  | [] => none
  | (name, value) :: ms =>
    match name, firstMember? ms with
    | some name, some m => if name ≤ m.1 then some (name, value) else some m
    | some name, none => some (name, value)
    | none, m => m

/-- the name of a variant without contents: a string, or an object of which the first member by name
counts, and is null -/
def variant? : Json → Option String
  | .string text => some text
  | .object members =>
    match firstMember? members with
    | some (name, .null) => some name
    | _ => none
  | _ => none

def spelling : Spelling := ⟨float?, variant?⟩

/-- settings written in order may be followed by more items, which say nothing -/
def firstItems (n : Nat) : Json → Json
  | .array items => .array (items.take n)
  | j => j

def level? (j : Json) : Option LogLevel := do
  let f ← (firstItems 1 j).fields? ["level"]
  LogLevel.ofText? (← f.required "level" Json.string?)

def gatherer? (j : Json) : Option Config :=
  Config.read? spelling (firstItems Config.fieldNames.length j)

def ofJson? (j : Json) : Option Settings := do
  let f ← j.fields? fieldNames
  let path := Json.nullable? Json.string?
  return {
    level := ← f.withDefault "logging" .info level?
    kind := ← f.required "kind" (SeriesKind.read? spelling)
    gatherer := ← f.withDefault "gatherer" .default gatherer?
    input := ← f.required "input" Json.string?
    output := ← f.withDefault "output" none path
    snapshot := ← f.withDefault "snapshot" none path }

/-- the variable for the setting at a path -/
def variableName (path : List String) : String :=
  "SIEVE_" ++ String.intercalate "__" (path.map String.toUpper)

def variableNames : List String :=
  (fieldNames.map fun name => variableName [name])
    ++ [variableName ["logging", "level"]]
    ++ Config.fieldNames.map fun name => variableName ["gatherer", name]

inductive Fault where
  /-- the document is not legible, or says something that is no setting -/
  | invalid
  /-- the text of a variable is cut off inside of a character -/
  | cut
deriving DecidableEq, Repr

def Fault.message : Fault → String
  | invalid => "the settings are not valid"
  | cut => "a variable is cut off inside of a character"

/-- the exit code of a command without settings -/
def Fault.exitCode : Fault → Nat
  | invalid => 1
  | cut => 101

/-- the document that variables make up, each put over those before it -/
def ofVariables? (overrides : List (String × String)) : Option Json :=
  overrides.foldlM (fun j (name, text) => Variable.assign? j name text) (.object [])

/-- the settings of a document, if there is one that can be read, with those of the variables put
over it; a variable that is cut off is found first -/
def resolve (document : Option Json) (overrides : List (String × String)) :
    Except Fault Settings :=
  match ofVariables? overrides with
  | none => .error .cut
  | some own =>
    match (document.filter Json.isLegible).bind fun d => ofJson? (d.settled.overlay own) with
    | some s => .ok s
    | none => .error .invalid

end Settings

end EventBuckets
