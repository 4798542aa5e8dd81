import EventBuckets.Window.Ring
import EventBuckets.Window.Spans

/-!
# Windows

The retained buckets of one kind of data: the ring of single buckets and the spans built from them.

* `Window.startBucket`, `Window.sample`
                    opens a bucket, takes a bucket into the spans;
* `Window.get?`     the data of an interval of the bucket length or of a span length;
* `Window.retain`   drops pairs from the single buckets, not from the spans;
* `Window.release`  drops what ended by a time, and counts it, empty single buckets apart.
-/

namespace EventBuckets

/-- single buckets and spans of one kind of data -/
structure Window (α : Type) where
  ring : Ring α
  spans : Spans α

namespace Window

variable {α : Type} [PairData α]

/-- empty buckets as a configuration has them, the newest of which holds `time` -/
def new (c : Config) (time : Int) : Window α :=
  ⟨.new c.latencyBuckets c.bucketSeconds time, .new c.spanSeconds⟩

/-- opens the bucket that starts at `start`, unless it is not after the newest one -/
def startBucket (w : Window α) (start : Int) : Window α :=
  { w with ring := (w.ring.push ∅ start).getD w.ring }

/-- takes the bucket that starts at `start` into the spans, if it is retained -/
def sample (w : Window α) (start : Int) : Window α :=
  match w.ring.get? start with
  | some bucket => { w with spans := w.spans.sample start bucket }
  | none => w

/-- the data of the interval of the given length that holds `time` -/
def get? (w : Window α) (time length : Int) : Option α :=
  if length = w.ring.length then w.ring.get? time else w.spans.get? length time

/-- changes the single bucket that holds `time` -/
def modify (w : Window α) (time : Int) (f : α → α) : Window α :=
  { w with ring := w.ring.modify time f }

/-- keeps only some pairs in the single buckets; spans stay as they are -/
def retain (w : Window α) (keeps : Pair → Bool) : Window α :=
  { w with ring := w.ring.mapTimed fun _ bucket => PairData.retain keeps bucket }

def emptyBucket (w : Window α) (time : Int) : Window α := w.modify time fun _ => ∅

def contents (w : Window α) : List α :=
  w.ring.slots.toList
    ++ w.spans.byLength.toList.filterMap fun (_, span) => span.map OpenSpan.contents

/-- whether a bucket ended by `cutoff` and holds data -/
def releasable (length cutoff start : Int) (bucket : α) : Bool :=
  bucketAfter start length ≤ cutoff && !PairData.isEmpty bucket

/-- drops the buckets and spans that ended by `cutoff`, and counts the spans and the buckets that
held data -/
def release (w : Window α) (cutoff : Int) : Window α × Nat :=
  let length := w.ring.length
  let ring := w.ring.mapTimed fun start bucket =>
    if releasable length cutoff start bucket then ∅ else bucket
  let released := w.ring.entries.countP fun e => releasable length cutoff e.1 e.2
  let (spans, closed) := w.spans.release cutoff
  (⟨ring, spans⟩, released + closed)

def clear (w : Window α) : Window α := ⟨w.ring.clear, w.spans.clear⟩

/-- empties everything and moves the window so that the newest bucket holds `time` -/
def reset (w : Window α) (time : Int) : Window α := ⟨w.ring.reset time, w.spans.clear⟩

instance [Hashing] [Checksum α] : Checksum (Window α) where
  checksum w := chain (checksum w.ring) (checksum w.spans)

/-! ## state -/

def nodes (w : Window α) : List Node :=
  [Tag.bucketQueue.level w.ring.nodes, Tag.multiBucket.level w.spans.nodes]

/-- the levels that hold a window; of levels with the same tag the last one counts -/
structure Levels where
  ring : Option (List Node)
  spans : Option (List Node)

/-- the window of a configuration that levels describe -/
def ofLevels (c : Config) (l : Levels) : Restore (Window α) := do
  let ring ← Ring.ofNodes c.latencyBuckets c.bucketSeconds (← required .bucketQueue l.ring)
  let spans ← Spans.ofNodes c.spanSeconds (← required .multiBucket l.spans)
  return ⟨ring, spans⟩

end Window

end EventBuckets
