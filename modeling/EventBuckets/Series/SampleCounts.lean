import EventBuckets.Bucket.Metrics

/-!
# Sample counts

For each person a smoothed number of measurements per bucket.  It starts at the count of the first
bucket with measurements; each later one moves it by a fixed share of the difference.

* `SampleCounts`          the numbers that are not a positive zero, by person;
* `smoothed`              the number after a bucket;
* `SampleCounts.update`   takes the counts of a bucket;
* `SampleCounts.get`      the number of a person, zero if there is none;
* `SampleCounts.entries`  the numbers other than zero, which are the ones written.
-/

namespace EventBuckets

/-- the smoothed numbers, none of them a positive zero -/
structure SampleCounts where
  byPerson : Std.ExtTreeMap Nat Binary64 compare

/-- a smoothed number after a bucket with `n` measurements, which takes the share `weight` -/
def smoothed (weight current : Binary64) (n : Nat) : Binary64 :=
  if current.isZero then .ofNat n else current + weight * (.ofNat n - current)

namespace SampleCounts

def empty : SampleCounts := ⟨∅⟩

def get (s : SampleCounts) (person : Nat) : Binary64 := s.byPerson.getD person 0

/-- sets the number of a person; a positive zero is not kept -/
def set (s : SampleCounts) (person : Nat) (x : Binary64) : SampleCounts :=
  if x = 0 then ⟨s.byPerson.erase person⟩ else ⟨s.byPerson.insert person x⟩

/-- takes the number of measurements of a person in a bucket; zero measurements say nothing -/
def updatePerson (weight : Binary64) (s : SampleCounts) (person n : Nat) : SampleCounts :=
  if n = 0 then s else s.set person (smoothed weight (s.get person) n)

/-- takes the numbers of measurements in a bucket -/
def update (weight : Binary64) (s : SampleCounts) (counts : List (Nat × Nat)) : SampleCounts :=
  counts.foldl (fun s e => s.updatePerson weight e.1 e.2) s

def retain (s : SampleCounts) (keeps : Nat → Bool) : SampleCounts :=
  ⟨s.byPerson.filter fun person _ => keeps person⟩

/-- the numbers other than zero, by person -/
def entries (s : SampleCounts) : List (Nat × Binary64) :=
  s.byPerson.toList.filter fun e => !e.2.isZero

/-! ## checksum and state -/

def hashes [Hashing] (s : SampleCounts) : List UInt64 :=
  s.entries.map fun (person, x) => chain (hashNat person) (hashFloat x)

def nodes (s : SampleCounts) : List Node :=
  s.entries.map fun (person, x) =>
    Tag.entry.level [Tag.pid.nat person, Tag.value.leaf (floatText x)]

/-- the fields of an entry; a field that is repeated counts as written last -/
structure Entry where
  pid : Option Nat
  value : Option Binary64

def readField (e : Entry) (n : Node) : Except RestoreError Entry := do
  let t ← n.tag?
  match t with
  | .pid => return { e with pid := some (← n.word t) }
  | .value => return { e with value := some (← n.float t) }
  | t => throw (.unexpectedTag t)

/-- takes up one entry, a level with any known tag -/
def readEntry (s : SampleCounts) (n : Node) : Except RestoreError SampleCounts := do
  let t ← n.tag?
  let e ← (← n.children t).foldlM readField ⟨none, none⟩
  let person ← required .pid e.pid
  return s.set person (← required .value e.value)

/-- adds the numbers that nodes describe -/
def readNodes (s : SampleCounts) (nodes : List Node) : Except RestoreError SampleCounts :=
  nodes.foldlM readEntry s

end SampleCounts

end EventBuckets
