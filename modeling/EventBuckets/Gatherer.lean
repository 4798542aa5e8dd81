import EventBuckets.Bucket.Aggregates
import EventBuckets.Series

/-!
# Gatherers

A gatherer rolls events into buckets.  Its clock only moves forward, and opens buckets as it moves.
An event may be late by the latency of the configuration, and is refused beyond that.

* `Gatherer`          the clock, the counts and the series of the retained buckets;
* `Gatherer.advance`  moves the clock.  Of a long jump only the first buckets, which push out all
                      that is retained, and the last one are opened;
* `Gatherer.tick`     moves the clock to a time that is not before the window;
* `Gatherer.sample`   moves the clock until a bucket is the oldest one, and takes it into the spans;
* `Gatherer.skip`     moves the clock alike, but nothing is sampled;
* `Gatherer.restart`  empties the buckets and sets the clock.
-/

namespace EventBuckets

/-- the numbers of people and attributes that have had room made for them -/
structure IdBounds where
  people : Nat
  attributes : Nat
deriving DecidableEq, Repr

def IdBounds.widen (b : IdBounds) (p : Pair) : IdBounds :=
  ⟨max b.people (p.person + 1), max b.attributes (p.attr + 1)⟩

structure Gatherer where
  config : Config
  start : Int
  /-- the earliest time of an event that was taken in -/
  earliest : Option Int
  counts : Window Aggregates
  series : Series
  /-- the copies of texts that buckets share -/
  pool : TextPool
  bounds : IdBounds

namespace Gatherer

/-- a gatherer whose current bucket holds `time` -/
def new (kind : SeriesKind) (config : Config) (time : Int) : Except ConfigError Gatherer :=
  match config.fault? kind with
  | some e => .error e
  | none => .ok {
      config
      start := bucketAt time config.bucketSeconds
      earliest := none
      counts := .new config time
      series := .new kind config time
      pool := .empty
      bounds := ⟨0, 0⟩ }

def kind (g : Gatherer) : SeriesKind := g.series.kind

def length (g : Gatherer) : Int := g.config.bucketSeconds

/-- the number of buckets before the current one that still take events -/
def latency (g : Gatherer) : Nat := g.config.latencyBuckets

def features (g : Gatherer) : List Feature := g.config.featuresFor g.kind

def oldest (g : Gatherer) : Int := g.start - g.latency * g.length

/-! ## the clock -/

def openBucket (g : Gatherer) (start : Int) (counting : Bool) : Gatherer :=
  { g with
    series := g.series.startBucket start counting
    counts := g.counts.startBucket start }

def openNext (g : Gatherer) (n : Nat) (counting : Bool) : Gatherer :=
  (List.range n).foldl
    (fun h (k : Nat) => h.openBucket (g.start + (k + 1) * g.length) counting) g

/-- moves the clock to the bucket that holds `time`, unless that is not after the current one;
`counting` says whether the buckets that leave count as samples -/
def advance (g : Gatherer) (time : Int) (counting : Bool) : Gatherer :=
  let start := bucketAt time g.length
  let steps := bucketsBetween g.start start g.length
  if steps ≤ 0 then g
  else
    let capacity := g.latency + 1
    let h := g.openNext (min steps.toNat capacity) counting
    let h := if capacity < steps then h.openBucket start counting else h
    { h with start }

/-- moves the clock to `time`; a time before the window is refused -/
def tick (g : Gatherer) (time : Int) : Bool × Gatherer :=
  if time < g.oldest then (false, g) else (true, g.advance time true)

/-- the last time at which the bucket that holds `time` still takes events -/
def lastCall (g : Gatherer) (time : Int) : Int :=
  bucketAt time g.length + (g.latency + 1) * g.length - 1

/-- moves the clock until the bucket that holds `time` is the oldest one, and takes it into the
spans -/
def sample (g : Gatherer) (time : Int) : Gatherer :=
  let g := g.advance (g.lastCall time) true
  let start := bucketAt time g.length
  { g with counts := g.counts.sample start, series := g.series.sample start }

/-- moves the clock as `sample` does, but samples nothing -/
def skip (g : Gatherer) (time : Int) : Gatherer := g.advance (g.lastCall time) false

/-- empties all buckets and spans, and makes the bucket that holds `time` the current one -/
def restart (g : Gatherer) (time : Int) : Gatherer :=
  let start := bucketAt time g.length
  { g with start, counts := g.counts.reset start, series := g.series.reset start }

def observe (g : Gatherer) (time : Int) : Gatherer :=
  { g with earliest := some (g.earliest.elim time fun e => min e time) }.advance time true

end Gatherer

end EventBuckets
