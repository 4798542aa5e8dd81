/-!
# Files by their paths

A tree of directories, and what opening a path in it gives.

* `Entry`           what lies at a place, which is the list of names on the way to it;
* `Files.place?`    the place that a path leads to, through directories only; what is there may be
                    missing;
* `Files.source`    what opening a path for reading gives;
* `Files.sink`      what opening a path for writing gives.
-/

namespace EventBuckets

inductive Source where
  | missing
  /-- it opens, but cannot be read -/
  | unreadable
  | text (contents : String)
deriving DecidableEq, Repr

/-- a file that is opened for writing -/
inductive Sink where
  | refused
  /-- it opens, but there is no room for anything -/
  | full
  /-- it takes everything, and is empty when it is read -/
  | void
  | standardOutput
  | file
deriving DecidableEq, Repr

inductive Entry where
  /-- a directory, which may take new files -/
  | directory (takesFiles : Bool)
  | text (contents : String)
  | device (sink : Sink)
deriving DecidableEq, Repr

structure Files where
  entries : List (List String × Entry)
  base : List String

namespace Files

def isDirectory (fs : Files) (place : List String) : Bool :=
  match fs.entries.lookup place with
  | some (.directory _) => true
  | _ => false

/-- one step along a path: names are looked up in directories only -/
def step (fs : Files) (place : List String) (name : String) : Option (List String) :=
  if fs.isDirectory place then
    if name = "" ∨ name = "." then some place
    else if name = ".." then some place.dropLast
    else some (place ++ [name])
  else none

/-- the place that a path leads to; the empty path leads nowhere -/
def place? (fs : Files) (path : String) : Option (List String) :=
  if path.isEmpty || path.toList.any (·.toNat = 0) then none
  else (path.splitOn "/").foldlM fs.step (if path.startsWith "/" then [] else fs.base)

def source (fs : Files) (path : String) : Source :=
  match (fs.place? path).bind fun place => fs.entries.lookup place with
  | none => .missing
  | some (.text contents) => .text contents
  | some (.device .void) => .text ""
  | some _ => .unreadable

/-- opening a path for writing, which makes a new file where there is none -/
def sink (fs : Files) (path : String) : Sink :=
  match fs.place? path with
  | none => .refused
  | some place =>
    match fs.entries.lookup place with
    | some (.text _) => .file
    | some (.device sink) => sink
    | some (.directory _) => .refused
    | none => if fs.entries.lookup place.dropLast = some (.directory true) then .file else .refused

@[simp] theorem source_empty (fs : Files) : fs.source "" = .missing := rfl

@[simp] theorem sink_empty (fs : Files) : fs.sink "" = .refused := rfl

end Files

end EventBuckets
