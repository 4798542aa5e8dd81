import EventBuckets.Series.Measured
import EventBuckets.Series.Occurrences

/-!
# Series

What is gathered beside the counts, by kind of series.

* `Series`                         occurrences or measurements;
* `Series.interpret?`              what a kind of series makes of the raw value of a record;
* `Series.add`, `Series.readout?`  takes a record of a pair, reads out a feature.
-/

namespace EventBuckets

inductive Series where
  | occurrences (series : Occurrences)
  | measured (series : Measured)

namespace Series

def new (kind : SeriesKind) (config : Config) (time : Int) : Series :=
  match kind with
  | .eventRate => occurrences (.new config time)
  | .metric => measured (.new config time)

def kind : Series → SeriesKind
  | occurrences _ => .eventRate
  | measured _ => .metric

/-- an event with the raw value of its record taken in, none if the record is of no use.  The raw
value of an occurrence is a text; that of a measurement is its values, and only a null mark can
stand in for it -/
def interpret? (kind : SeriesKind) (raw : Option String) (e : Event) : Option Event :=
  match kind, raw with
  | .eventRate, some text => some { e with text := some text }
  | .eventRate, none => some e
  | .metric, some text => (readValues text).map fun values => { e with values := values }
  | .metric, none => if e.isNull then some e else none

/-- opens a bucket; `counting` says whether the bucket that leaves counts as a sample -/
def startBucket (s : Series) (start : Int) (counting : Bool) : Series :=
  match s with
  | occurrences s => occurrences ⟨s.window.startBucket start⟩
  | measured s => measured (s.startBucket start counting)

/-- takes the bucket that starts at `start` into the spans -/
def sample (s : Series) (start : Int) : Series :=
  match s with
  | occurrences s => occurrences ⟨s.window.sample start⟩
  | measured s => measured { s with window := s.window.sample start }

/-- takes an event of a pair into the bucket that holds `time` -/
def add (s : Series) (time : Int) (p : Pair) (e : Event) : Series :=
  match s with
  | occurrences s => occurrences (s.add time p e.text)
  | measured s => measured (s.add time p e.values)

/-- the texts that `add` keeps -/
def textsToKeep (s : Series) (time : Int) (e : Event) : List String :=
  match s with
  | occurrences s => if s.window.ring.contains time then e.text.toList else []
  | measured _ => []

def heldTexts : Series → List String
  | occurrences s => s.window.contents.flatMap DistinctTexts.texts
  | measured _ => []

/-- a feature of the interval of the given length that holds `time` and has the counts `a` -/
def readout? (s : Series) (feature : Feature) (time length : Int) (a : Aggregates) :
    Option Readout :=
  match s with
  | occurrences s => s.readout? feature time length a
  | measured s => s.readout? feature time length

def retainPeople (s : Series) (keeps : Nat → Bool) : Series :=
  match s with
  | occurrences s => occurrences ⟨s.window.retain fun p => keeps p.person⟩
  | measured s => measured (s.retainPeople keeps)

def retainAttributes (s : Series) (keeps : Nat → Bool) : Series :=
  match s with
  | occurrences s => occurrences ⟨s.window.retain fun p => keeps p.attr⟩
  | measured s => measured (s.retain fun p => keeps p.attr)

/-- empties the single bucket that holds `time` -/
def emptyBucket (s : Series) (time : Int) : Series :=
  match s with
  | occurrences s => occurrences ⟨s.window.emptyBucket time⟩
  | measured s => measured { s with window := s.window.emptyBucket time }

/-- drops the buckets and spans that ended by `cutoff`, and counts the spans and the buckets that
held data -/
def release (s : Series) (cutoff : Int) : Series × Nat :=
  match s with
  | occurrences s =>
    let (window, n) := s.window.release cutoff
    (occurrences ⟨window⟩, n)
  | measured s =>
    let (window, n) := s.window.release cutoff
    (measured { s with window := window }, n)

/-- forgets everything but the window -/
def clear : Series → Series
  | occurrences s => occurrences ⟨s.window.clear⟩
  | measured s => measured s.clear

/-- empties everything but the sample counts, and moves the window to `time` -/
def reset (s : Series) (time : Int) : Series :=
  match s with
  | occurrences s => occurrences ⟨s.window.reset time⟩
  | measured s => measured { s with window := s.window.reset time }

/-- the smoothed sample count of a person, in a series of measurements -/
def sampleCount? (s : Series) (person : Nat) : Option Binary64 :=
  match s with
  | occurrences _ => none
  | measured s => some (s.samples.get person)

/-- the distinct texts of a pair in the single bucket that holds `time` -/
def texts? (s : Series) (time : Int) (p : Pair) : Option TextSet :=
  match s with
  | occurrences s => (s.window.ring.get? time).bind fun bucket => bucket.get? p
  | measured _ => none

/-- the statistics of a pair in the single bucket that holds `time` -/
def summary? (s : Series) (time : Int) (p : Pair) : Option Summary :=
  match s with
  | occurrences _ => none
  | measured s => (s.window.ring.get? time).bind fun bucket => bucket.get? p

instance [Hashing] : Checksum Series where
  checksum
    | occurrences s => checksum s
    | measured s => checksum s

/-! ## state -/

def nodes : Series → List Node
  | occurrences s => s.window.nodes
  | measured s => s.nodes

def ofNodes (kind : SeriesKind) (config : Config) (nodes : List Node) : Restore Series :=
  match kind with
  | .eventRate => do return occurrences (← Occurrences.ofNodes config nodes)
  | .metric => do return measured (← Measured.ofNodes config nodes)

end Series

end EventBuckets
