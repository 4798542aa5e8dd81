import EventBuckets.Calendar
import EventBuckets.Gatherer

/-!
# Asking a gatherer

* `Gatherer.available`    whether an event was taken in before the end of a bucket;
* `Gatherer.firstSample`  the first retained bucket of an interval with data available;
* `Gatherer.pairCounts`, `Gatherer.personCounts`, `Gatherer.influences`, `Gatherer.nullsOnly`
                          what the single bucket that holds a time has counted;
* `Gatherer.readouts`     the features of an interval;
* `Gatherer.describe`     the current bucket as text.
-/

namespace EventBuckets.Gatherer

/-- whether an event was taken in before the end of the bucket that holds `time` -/
def available (g : Gatherer) (time : Int) : Bool :=
  match g.earliest with
  | some earliest => bucketAt earliest g.length ≤ time
  | none => false

/-- the bucket that an interval from `start` on is searched from: the one that starts there, or else
the next one, which lies before `start` where the length is negative -/
def firstWithin (g : Gatherer) (start : Int) : Int :=
  let t := bucketAt start g.length
  if t < start then t + g.length else t

/-- the start of the first bucket in `[start, stop)` that is retained and has data available, `stop`
if there is none -/
def firstSample (g : Gatherer) (start stop : Int) : Int :=
  let first := g.firstWithin start
  let reached (t : Int) : Bool := 0 ≤ bucketsBetween first t g.length
  if first < stop then
    (g.counts.ring.starts.find? fun t => reached t && t < stop && g.available t).getD stop
  else stop

def bucket? (g : Gatherer) (time : Int) : Option Aggregates := g.counts.ring.get? time

def pairCounts (g : Gatherer) (time : Int) : List (Pair × Nat) :=
  ((g.bucket? time).map fun b => b.counts.toList).getD []

def personCounts (g : Gatherer) (time : Int) : List (Nat × Nat) :=
  ((g.bucket? time).map Aggregates.personCounts).getD []

/-- the counts of the influences, by influencing field -/
def influences (g : Gatherer) (time : Int) : List (List (Mention × Nat)) :=
  ((g.bucket? time).map fun b => b.influencers.map fun f => f.toList).getD []

def nulls (g : Gatherer) (time : Int) : List Pair :=
  ((g.bucket? time).map fun b => b.nulls.toList).getD []

def nullsOnly (g : Gatherer) (time : Int) (p : Pair) : Bool :=
  ((g.bucket? time).map fun b => b.nullsOnly p).getD false

/-- the features of the interval of the given length that holds `time` -/
def readouts (g : Gatherer) (time length : Int) : List (Feature × Readout) :=
  match g.counts.get? time length with
  | some a =>
    g.features.filterMap fun feature =>
      (g.series.readout? feature time length a).map fun values => (feature, values)
  | none => []

/-- what is read out of an interval with counts are the features that the series knows -/
theorem map_fst_readouts {g : Gatherer} {time length : Int} {a : Aggregates}
    (ha : g.counts.get? time length = some a) :
    (g.readouts time length).map Prod.fst =
      g.features.filter fun f => (g.series.readout? f time length a).isSome := by
  unfold readouts
  rw [ha]
  simp only
  rw [List.map_filterMap, ← List.filterMap_eq_filter]
  congr 1
  funext f
  cases h : g.series.readout? f time length a <;> simp [Option.guard, h]

/-! ## as text -/

def describePair (p : Pair) : String :=
  "person " ++ toString p.person ++ " attribute " ++ toString p.attr

def describeInfluence (field : Nat) (m : Mention) (n : Nat) : String :=
  "influencer " ++ toString field ++ " " ++ describePair m.pair ++ " " ++ m.text ++ ": "
    ++ toString n

/-- the lines that describe the current bucket -/
def describeLines (g : Gatherer) : List String :=
  ["bucket " ++ calendarText g.start]
    ++ ((g.pairCounts g.start).map fun (p, n) => describePair p ++ ": " ++ toString n)
    ++ ((g.nulls g.start).map fun p => describePair p ++ ": explicit null")
    ++ ((g.influences g.start).mapIdx fun field counts =>
        counts.map fun (m, n) => describeInfluence field m n).flatten

/-- the current bucket as text, a line for each of its contents -/
def describe (g : Gatherer) : String := String.join (g.describeLines.map fun line => line ++ "\n")

end EventBuckets.Gatherer
