import EventBuckets.Bucket.Metrics
import EventBuckets.Json.Number

/-!
# Readouts

What a feature says about an interval: numbers by person, numbers by pair, or statistics by pair, in
ascending order of the keys.

* `Readout`          the values of a feature;
* `Readout.isEmpty`  whether there are none;
* `Readout.toJson`   an object with one member, named for the kind of values.
-/

namespace EventBuckets

inductive Readout where
  | personCounts (counts : List (Nat × Nat))
  | pairCounts (counts : List (Pair × Nat))
  | pairReadings (readings : List (Pair × Reading))
deriving DecidableEq

namespace Readout

def isEmpty : Readout → Bool
  | personCounts counts => counts.isEmpty
  | pairCounts counts => counts.isEmpty
  | pairReadings readings => readings.isEmpty

/-! ## in documents -/

def keyed {α β : Type} (key : α → Json) (value : β → Json) (entries : List (α × β)) : Json :=
  .ofList (fun (a, b) => .array [key a, value b]) entries

def pairJson (p : Pair) : Json := .array [.ofNat p.person, .ofNat p.attr]

def readingJson (r : Reading) : Json :=
  .record [("value", .ofList .ofFloat r.value), ("count", .ofNat r.count)]

def toJson : Readout → Json
  | personCounts counts => .record [("person_counts", keyed .ofNat .ofNat counts)]
  | pairCounts counts => .record [("pair_counts", keyed pairJson .ofNat counts)]
  | pairReadings readings => .record [("pair_metrics", keyed pairJson readingJson readings)]

end Readout

end EventBuckets
