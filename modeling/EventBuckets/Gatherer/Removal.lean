import EventBuckets.Gatherer

/-!
# Taking data away

* `Gatherer.recyclePeople`, `Gatherer.recycleAttributes`
                          drop the data of some ids;
* `Gatherer.removePeople`, `Gatherer.removeAttributes`
                          drop the data of all ids from one on;
* `Gatherer.release`      drops the buckets and spans that ended by a time;
* `Gatherer.resetBucket`  empties a retained bucket, so that it can be gathered again;
* `Gatherer.clear`        empties all buckets and spans.

Ids are dropped from single buckets only; a span keeps what it has.
-/

namespace EventBuckets.Gatherer

def retainPeople (g : Gatherer) (keeps : Nat → Bool) : Gatherer :=
  { g with
    counts := g.counts.retain fun p => keeps p.person
    series := g.series.retainPeople keeps }

def retainAttributes (g : Gatherer) (keeps : Nat → Bool) : Gatherer :=
  { g with
    counts := g.counts.retain fun p => keeps p.attr
    series := g.series.retainAttributes keeps }

def recyclePeople (g : Gatherer) (ids : List Nat) : Gatherer :=
  g.retainPeople fun id => id ∉ ids

def recycleAttributes (g : Gatherer) (ids : List Nat) : Gatherer :=
  g.retainAttributes fun id => id ∉ ids

/-- drops the data of the people from `lowest` on -/
def removePeople (g : Gatherer) (lowest : Nat) : Gatherer :=
  let g := g.retainPeople fun id => id < lowest
  { g with bounds := { g.bounds with people := min g.bounds.people lowest } }

/-- drops the data of the attributes from `lowest` on -/
def removeAttributes (g : Gatherer) (lowest : Nat) : Gatherer :=
  let g := g.retainAttributes fun id => id < lowest
  { g with bounds := { g.bounds with attributes := min g.bounds.attributes lowest } }

/-- the texts that buckets and spans hold -/
def heldTexts (g : Gatherer) : TextSet :=
  .ofList (g.counts.contents.flatMap Aggregates.texts ++ g.series.heldTexts) compare

/-- lets go of the copies of texts that no bucket and no span holds -/
def prune (g : Gatherer) : Gatherer :=
  let held := g.heldTexts
  { g with pool := (g.pool.prune fun x => held.contains x.text).1 }

/-- drops the buckets and spans that ended by `cutoff`, and counts the spans and the buckets that
held data, the counts and the series each on their own -/
def release (g : Gatherer) (cutoff : Int) : Nat × Gatherer :=
  let (counts, n) := g.counts.release cutoff
  let (series, m) := g.series.release cutoff
  (n + m, { g with counts, series }.prune)

/-- empties the bucket that holds `time`; a bucket that is not retained is refused -/
def resetBucket (g : Gatherer) (time : Int) : Bool × Gatherer :=
  if g.counts.ring.contains time then
    (true, { g with
      counts := g.counts.emptyBucket time
      series := g.series.emptyBucket time })
  else (false, g)

/-- empties all buckets and spans, but keeps the time -/
def clear (g : Gatherer) : Gatherer :=
  { g with counts := g.counts.clear, series := g.series.clear }.prune

end EventBuckets.Gatherer
