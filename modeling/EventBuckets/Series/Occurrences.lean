import EventBuckets.Bucket.Texts
import EventBuckets.Event
import EventBuckets.Readout
import EventBuckets.Window

/-!
# Series of occurrences

Occurrences are counted with the aggregates; the series adds the distinct texts of each pair.

* `Occurrences`           the window of distinct texts;
* `Occurrences.readout?`  numbers by person or pair, the number of distinct texts among them.
-/

namespace EventBuckets

/-- the distinct texts in a window -/
structure Occurrences where
  window : Window DistinctTexts

namespace Occurrences

def new (config : Config) (time : Int) : Occurrences := ⟨.new config time⟩

/-- takes the text of a pair into the bucket that holds `time`, if there is a text -/
def add (s : Occurrences) (time : Int) (p : Pair) (text : Option String) : Occurrences :=
  match text with
  | some text => ⟨s.window.modify time fun bucket => bucket.insert p text⟩
  | none => s

/-- a feature of the interval of the given length that holds `time` and has the counts `a` -/
def readout? (s : Occurrences) (feature : Feature) (time length : Int) (a : Aggregates) :
    Option Readout :=
  match feature with
  | .countByPerson => some (.personCounts a.personCounts)
  | .nonZeroCountByPerson =>
    some (.personCounts (a.personCounts.map fun (person, _) => (person, 1)))
  | .uniqueCountByPerson =>
    some (.personCounts (((s.window.get? time length).map DistinctTexts.personCounts).getD []))
  | .countByPair => some (.pairCounts a.counts.toList)
  | _ => none

instance [Hashing] : Checksum Occurrences where
  checksum s := checksum s.window

/-! ## state -/

def readLevel (l : Window.Levels) (n : Node) : Except RestoreError Window.Levels := do
  let t ← n.tag?
  match t with
  | .bucketQueue => return { l with ring := some (← n.children t) }
  | .multiBucket => return { l with spans := some (← n.children t) }
  | t => throw (.unexpectedTag t)

def readLevels (nodes : List Node) : Except RestoreError Window.Levels :=
  nodes.foldlM readLevel ⟨none, none⟩

def ofNodes (config : Config) (nodes : List Node) : Restore Occurrences := do
  return ⟨← Window.ofLevels config (← readLevels nodes)⟩

end Occurrences

end EventBuckets
