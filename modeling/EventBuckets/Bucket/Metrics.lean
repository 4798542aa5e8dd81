import EventBuckets.Bucket.Aggregates

/-!
# Measurements of a bucket

A measurement is a list of values, one per dimension.  Kept are their number and, in each dimension,
the sum, the least and the greatest value; a dimension that a measurement lacks is left as it is.

* `Summary`           the statistics of one pair; `Summary.add` takes a measurement;
* `zipLonger`         combines two lists in each position, keeping the rest of the longer one;
* `Metrics`           the statistics of each pair;
* `Metrics.values`    a statistic of each pair that has a measurement;
* `PairData Metrics`  merging combines the statistics of each pair.
-/

namespace EventBuckets

/-- two lists combined in each position; the longer one gives the rest -/
def zipLonger {α : Type} (f : α → α → α) : List α → List α → List α
  | [], bs => bs
  | as, [] => as
  | a :: as, b :: bs => f a b :: zipLonger f as bs

@[simp] theorem zipLonger_nil {α : Type} (f : α → α → α) (as : List α) :
    zipLonger f as [] = as := by
  cases as <;> rfl

@[simp] theorem length_zipLonger {α : Type} (f : α → α → α) (as bs : List α) :
    (zipLonger f as bs).length = max as.length bs.length := by
  induction as generalizing bs with
  | nil => simp [zipLonger]
  | cons a as ih =>
    cases bs with
    | nil => simp
    | cons b bs => simp [zipLonger, ih]

/-- the number of measurements, and sum, least and greatest value in each dimension -/
structure Summary where
  count : Nat
  sum : List Binary64
  min : List Binary64
  max : List Binary64
deriving DecidableEq

namespace Summary

instance : EmptyCollection Summary := ⟨⟨0, [], [], []⟩⟩

/-- takes a measurement; one without values is none -/
def add (s : Summary) (values : List Binary64) : Summary :=
  if values.isEmpty then s
  else ⟨s.count + 1, zipLonger (· + ·) s.sum values, zipLonger .min s.min values,
    zipLonger .max s.max values⟩

/-- the mean in each dimension, of all measurements -/
def mean (s : Summary) : List Binary64 :=
  if s.count = 0 then [] else s.sum.map fun x => x / .ofNat s.count

/-- the statistics of the measurements of both -/
def mergeWith (a b : Summary) : Summary :=
  ⟨a.count + b.count, zipLonger (· + ·) a.sum b.sum, zipLonger .min a.min b.min,
    zipLonger .max a.max b.max⟩

def checksumOf [Hashing] (s : Summary) : UInt64 :=
  chainAll (hashNat s.count) ((s.sum ++ s.min ++ s.max).map hashFloat)

end Summary

/-- a statistic and the number of measurements behind it -/
structure Reading where
  value : List Binary64
  count : Nat
deriving DecidableEq

structure Metrics where
  byPair : PairMap Summary

namespace Metrics

instance : EmptyCollection Metrics := ⟨⟨∅⟩⟩

/-- takes a measurement of a pair; the pair is listed even if the measurement has no values -/
def add (m : Metrics) (p : Pair) (values : List Binary64) : Metrics :=
  ⟨m.byPair.alter p fun old => some ((old.getD ∅).add values)⟩

def get? (m : Metrics) (p : Pair) : Option Summary := m.byPair[p]?

def personCounts (m : Metrics) : List (Nat × Nat) :=
  (sumBy (fun e => e.1.person) (fun e => e.2.count) m.byPair.toList).toList

/-- a statistic of each pair that has a measurement -/
def values (m : Metrics) (value : Summary → List Binary64) : List (Pair × Reading) :=
  (m.byPair.toList.filter fun e => 0 < e.2.count).map fun (p, s) => (p, ⟨value s, s.count⟩)

/-- combines the statistics of a pair with further ones -/
def mergePair (m : PairMap Summary) (p : Pair) (s : Summary) : PairMap Summary :=
  m.alter p fun old => some ((old.getD ∅).mergeWith s)

def mergeWith (mine theirs : Metrics) : Metrics := ⟨theirs.byPair.foldl mergePair mine.byPair⟩

def checksumOf [Hashing] (m : Metrics) : UInt64 :=
  chainSorted 0 (m.byPair.toList.map fun (p, s) => chain p.hash s.checksumOf)

instance [Hashing] : Checksum Metrics := ⟨checksumOf⟩

def nodes (m : Metrics) : List Node :=
  m.byPair.toList.map fun (p, s) =>
    Tag.entry.level <| Aggregates.pairNodes p ++
      [Tag.measurements.nat s.count, Tag.sum.leaf (joinFloats s.sum),
       Tag.min.leaf (joinFloats s.min), Tag.max.leaf (joinFloats s.max)]

structure Entry where
  pid : Option Nat
  cid : Option Nat
  stats : Summary

def readField (e : Entry) (n : Node) : Except RestoreError Entry := do
  let t ← n.tag?
  match t with
  | .pid => return { e with pid := some (← n.word t) }
  | .cid => return { e with cid := some (← n.word t) }
  | .measurements => return { e with stats := { e.stats with count := ← n.word t } }
  | .sum => return { e with stats := { e.stats with sum := ← n.floats t } }
  | .min => return { e with stats := { e.stats with min := ← n.floats t } }
  | .max => return { e with stats := { e.stats with max := ← n.floats t } }
  | t => throw (.unexpectedTag t)

/-- takes up one entry; a pair that is repeated has the statistics written last -/
def readEntry (m : Metrics) (n : Node) : Except RestoreError Metrics := do
  let t ← n.tag?
  if t ≠ .entry then throw (.unexpectedTag t)
  let e ← (← n.children t).foldlM readField ⟨none, none, ∅⟩
  return ⟨m.byPair.insert ⟨← required .pid e.pid, ← required .cid e.cid⟩ e.stats⟩

def ofNodes (nodes : List Node) : Except RestoreError Metrics := nodes.foldlM readEntry ∅

instance : PairData Metrics where
  merge := mergeWith
  persist := nodes
  restore nodes := Restore.ofExcept (ofNodes nodes)
  retain keeps m := ⟨m.byPair.filter fun p _ => keeps p⟩
  isEmpty m := m.byPair.isEmpty

end Metrics

end EventBuckets
