import EventBuckets.Config
import EventBuckets.Json.Fields

/-!
# Configurations in JSON

* `Config.ofJson?`  every field has a default, lengths are whole seconds;
* `Config.read?`    the same, with the rules for floats and for names given;
* `Config.toJson`   the fields in order; a missing limit is left out.
-/

namespace EventBuckets

/-- how a document spells floats and the names of features and kinds -/
structure Spelling where
  float : Json → Option Binary64
  name : Json → Option String

def Spelling.json : Spelling := ⟨Json.float?, Json.variant?⟩

def Feature.read? (spelling : Spelling) (j : Json) : Option Feature :=
  (spelling.name j).bind Feature.ofName?

def SeriesKind.read? (spelling : Spelling) (j : Json) : Option SeriesKind :=
  (spelling.name j).bind SeriesKind.ofName?

def Duration.ofJson? (j : Json) : Option Duration :=
  j.word?.map fun n => .ofSecs (UInt64.ofNat n)

def Duration.toJson (d : Duration) : Json := .ofNat d.secs.toNat

namespace Config

def fieldNames : List String :=
  ["bucket_length", "latency_buckets", "multi_bucket_lengths", "features", "max_people",
    "max_attributes", "sample_count_weight"]

/-- the configuration in a document of the given spelling -/
def read? (spelling : Spelling) (j : Json) : Option Config := do
  let f ← j.fields? fieldNames
  return {
    bucketLength := ← f.withDefault "bucket_length" Config.default.bucketLength Duration.ofJson?
    latencyBuckets := ← f.withDefault "latency_buckets" 0 Json.word?
    multiBucketLengths := ← f.withDefault "multi_bucket_lengths" [] (Json.list? Duration.ofJson?)
    features := ← f.withDefault "features" [] (Json.list? (Feature.read? spelling))
    maxPeople := ← f.withDefault "max_people" none (Json.nullable? Json.word?)
    maxAttributes := ← f.withDefault "max_attributes" none (Json.nullable? Json.word?)
    sampleCountWeight :=
      ← f.withDefault "sample_count_weight" Config.default.sampleCountWeight spelling.float }

def ofJson? : Json → Option Config := read? .json

def limitField (name : String) (limit : Option Nat) : List (String × Json) :=
  limit.toList.map fun n => (name, .ofNat n)

def toJson (c : Config) : Json :=
  .record <|
    [("bucket_length", c.bucketLength.toJson),
     ("latency_buckets", .ofNat c.latencyBuckets),
     ("multi_bucket_lengths", .ofList Duration.toJson c.multiBucketLengths),
     ("features", .ofList (fun f => .string f.name) c.features)]
    ++ limitField "max_people" c.maxPeople
    ++ limitField "max_attributes" c.maxAttributes
    ++ [("sample_count_weight", .ofFloat c.sampleCountWeight)]

end Config

end EventBuckets
