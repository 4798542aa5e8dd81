import EventBuckets.Event
import EventBuckets.Readout
import EventBuckets.Series.SampleCounts
import EventBuckets.Text.Blank
import EventBuckets.Window

/-!
# Series of measurements

The statistics of the measured values in a window, and the smoothed sample counts.  A bucket counts
as a sample once it leaves the window, since only then can it no longer change.

* `Measured`              the window, the sample counts and their weight;
* `Measured.startBucket`  opens a bucket, after the sample counts took the oldest one;
* `readValues`            the values of a measurement written with commas between.
-/

namespace EventBuckets

/-- statistics of measurements and smoothed sample counts -/
structure Measured where
  window : Window Metrics
  samples : SampleCounts
  /-- the share of a new bucket in the sample counts -/
  weight : Binary64

/-- values with commas between, each of them finite; blanks around a value do not count -/
def readValues (text : String) : Option (List Binary64) := do
  let values ← (splitCommas text.toList).mapM fun part => readFloatChars (trimBlank part)
  if values.all Binary64.isFinite then some values else none

namespace Measured

def new (config : Config) (time : Int) : Measured :=
  ⟨.new config time, .empty, config.sampleCountWeight⟩

/-- the number of measurements of each person in the oldest bucket -/
def leaving (m : Measured) : List (Nat × Nat) :=
  match m.window.ring.get? m.window.ring.oldest with
  | some bucket => bucket.personCounts
  | none => []

/-- takes the oldest bucket into the sample counts -/
def updateSamples (m : Measured) : Measured :=
  { m with samples := m.samples.update m.weight m.leaving }

/-- opens a bucket; the oldest one is taken into the sample counts first if `counting` says so -/
def startBucket (m : Measured) (start : Int) (counting : Bool) : Measured :=
  let m := if counting then m.updateSamples else m
  { m with window := m.window.startBucket start }

/-- takes a measurement of a pair into the bucket that holds `time` -/
def add (m : Measured) (time : Int) (p : Pair) (values : List Binary64) : Measured :=
  { m with window := m.window.modify time fun bucket => bucket.add p values }

/-- the statistic that a feature reads out -/
def statistic? : Feature → Option (Summary → List Binary64)
  | .mean => some Summary.mean
  | .min => some Summary.min
  | .max => some Summary.max
  | .sum => some Summary.sum
  | _ => none

/-- a feature of the interval of the given length that holds `time` -/
def readout? (m : Measured) (feature : Feature) (time length : Int) : Option Readout :=
  (statistic? feature).map fun value =>
    .pairReadings (((m.window.get? time length).map fun bucket => bucket.values value).getD [])

def retain (m : Measured) (keeps : Pair → Bool) : Measured :=
  { m with window := m.window.retain keeps }

/-- keeps only some people in the single buckets and the sample counts -/
def retainPeople (m : Measured) (keeps : Nat → Bool) : Measured :=
  { m.retain (fun p => keeps p.person) with samples := m.samples.retain keeps }

def clear (m : Measured) : Measured := { m with window := m.window.clear, samples := .empty }

instance [Hashing] : Checksum Measured where
  checksum m := chainAll (checksum m.window) m.samples.hashes

/-! ## state -/

def nodes (m : Measured) : List Node :=
  m.window.nodes ++ [Tag.sampleCounts.level m.samples.nodes]

/-- the levels of a series and the sample counts, which are read on the way -/
structure Parts where
  levels : Window.Levels
  samples : SampleCounts

def readPart (s : Parts) (n : Node) : Except RestoreError Parts := do
  let t ← n.tag?
  match t with
  | .bucketQueue => return { s with levels := { s.levels with ring := some (← n.children t) } }
  | .multiBucket => return { s with levels := { s.levels with spans := some (← n.children t) } }
  | .sampleCounts => return { s with samples := ← s.samples.readNodes (← n.children t) }
  | t => throw (.unexpectedTag t)

/-- the levels and sample counts that nodes describe -/
def readParts (nodes : List Node) : Except RestoreError Parts :=
  nodes.foldlM readPart ⟨⟨none, none⟩, .empty⟩

def ofNodes (config : Config) (nodes : List Node) : Restore Measured := do
  let s ← readParts nodes
  return ⟨← Window.ofLevels config s.levels, s.samples, config.sampleCountWeight⟩

end Measured

end EventBuckets
