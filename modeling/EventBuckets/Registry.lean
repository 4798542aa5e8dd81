import EventBuckets.Pair

/-!
# Ids of people and attributes

Names get dense ids.  A recycled id is free for the next new name, the lowest one first.

* `NameTable`  the slots by id, the ids by name, and the free ids;
* `IdStatus`   whether an id is active, recycled or was never given out;
* `Registry`   one id space for people and one for attributes;
* `Directory`  all that gathering asks of a registry: what became of each id.
-/

namespace EventBuckets

/-- what became of an id -/
inductive IdStatus where
  | active
  | recycled
  | unknown
deriving DecidableEq, Repr

def IdStatus.name : IdStatus → String
  | .active => "Active"
  | .recycled => "Recycled"
  | .unknown => "Unknown"

/-- dense ids with look-up by name -/
structure NameTable where
  /-- the name in each slot, none if its id is free -/
  slots : Array (Option String)
  index : Std.ExtTreeMap String Nat compare
  /-- the ids free for reuse -/
  free : Std.ExtTreeSet Nat compare

namespace NameTable

def empty : NameTable := ⟨#[], ∅, ∅⟩

def id? (s : NameTable) (name : String) : Option Nat := s.index[name]?

def name? (s : NameTable) (id : Nat) : Option String := (s.slots[id]?).join

def status (s : NameTable) (id : Nat) : IdStatus :=
  match s.slots[id]? with
  | some (some _) => .active
  | some none => .recycled
  | none => .unknown

/-- the id of a name; a new name takes the lowest free id, or the next slot if none is free -/
def add (s : NameTable) (name : String) : Nat × NameTable :=
  match s.index[name]? with
  | some id => (id, s)
  | none =>
    match s.free.min? with
    | some id =>
      (id, ⟨s.slots.setIfInBounds id (some name), s.index.insert name id, s.free.erase id⟩)
    | none =>
      (s.slots.size, ⟨s.slots.push (some name), s.index.insert name s.slots.size, s.free⟩)

/-- frees the id of a name, if it has one -/
def release (s : NameTable) (name : String) : Option Nat × NameTable :=
  match s.index[name]? with
  | some id =>
    (some id, ⟨s.slots.setIfInBounds id none, s.index.erase name, s.free.insert id⟩)
  | none => (none, s)

/-- frees the ids of the names in turn -/
def releaseAll (s : NameTable) : List String → List Nat × NameTable
  | [] => ([], s)
  | name :: names =>
    let (id, s) := s.release name
    let (ids, s) := s.releaseAll names
    (id.toList ++ ids, s)

/-- frees the ids of the names and gives them in ascending order -/
def recycle (s : NameTable) (names : List String) : List Nat × NameTable :=
  let (ids, s) := s.releaseAll names
  (ids.mergeSort fun a b => decide (a ≤ b), s)

/-- the names in the slots from `lowest` on -/
def namesFrom (s : NameTable) (lowest : Nat) : List String :=
  (s.slots.toList.drop lowest).filterMap fun slot => slot

/-- gives up the ids from `lowest` on, and the names that they have -/
def removeFrom (s : NameTable) (lowest : Nat) : NameTable :=
  ⟨s.slots.take lowest, (s.namesFrom lowest).foldl (fun index name => index.erase name) s.index,
    s.free.filter fun id => decide (id < lowest)⟩

end NameTable

/-- the ids of people and of attributes -/
structure Registry where
  people : NameTable
  attributes : NameTable

def Registry.empty : Registry := ⟨.empty, .empty⟩

/-- what became of each id -/
structure Directory where
  person : Nat → IdStatus
  attr : Nat → IdStatus

def Registry.directory (r : Registry) : Directory := ⟨r.people.status, r.attributes.status⟩

end EventBuckets
