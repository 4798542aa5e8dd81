import EventBuckets.Pair
import EventBuckets.State.Document

/-!
# Data of a bucket

What the windows need of the data they keep per bucket.

* `Merge`     a bucket accumulates another one;
* `PairData`  data keyed by pairs: empty, merged, written and restricted to some pairs.
-/

namespace EventBuckets

class Merge (α : Type) where
  /-- the first argument with the second one added -/
  merge : α → α → α

export Merge (merge)

/-- data of a bucket, keyed by pairs -/
class PairData (α : Type) extends EmptyCollection α, Merge α, Persist α where
  /-- the data of the pairs that are kept -/
  retain : (Pair → Bool) → α → α
  isEmpty : α → Bool

end EventBuckets
