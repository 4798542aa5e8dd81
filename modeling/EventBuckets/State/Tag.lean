import EventBuckets.Config

/-!
# Tags

Persisted state is a tree of tagged nodes.  Writer and reader take the names of tags from this one
table.

* `Tag`           the tags;
* `Tag.name`      the name in a document, `Tag.ofName?` its inverse;
* `RestoreError`  why a document is no state.
-/

namespace EventBuckets

inductive Tag where
  | eventRateGatherer
  | metricGatherer
  | bucketLength
  | bucketStart
  | earliestTime
  | bucketQueue
  | latestStart
  | bucket
  | time
  | counts
  | explicitNulls
  | influencers
  | influenceField
  | entry
  | pid
  | cid
  | value
  | influence
  | multiBucket
  | span
  | spanStart
  | series
  | text
  | measurements
  | sum
  | min
  | max
  | sampleCounts
deriving DecidableEq, Repr

namespace Tag

def all : List Tag :=
  [eventRateGatherer, metricGatherer, bucketLength, bucketStart, earliestTime, bucketQueue,
   latestStart, bucket, time, counts, explicitNulls, influencers, influenceField, entry, pid, cid,
   value, influence, multiBucket, span, spanStart, series, text, measurements, sum, min, max,
   sampleCounts]

def name : Tag → String
  | eventRateGatherer => "event_rate_bucket_gatherer"
  | metricGatherer => "metric_bucket_gatherer"
  | bucketLength => "bucket_length"
  | bucketStart => "bucket_start"
  | earliestTime => "earliest_time"
  | bucketQueue => "bucket_queue"
  | latestStart => "latest_start"
  | bucket => "bucket"
  | time => "time"
  | counts => "counts"
  | explicitNulls => "explicit_nulls"
  | influencers => "influencers"
  | influenceField => "influence_field"
  | entry => "entry"
  | pid => "pid"
  | cid => "cid"
  | value => "value"
  | influence => "influence"
  | multiBucket => "multi_bucket"
  | span => "span"
  | spanStart => "span_start"
  | series => "series"
  | text => "string"
  | measurements => "n"
  | sum => "sum"
  | min => "min"
  | max => "max"
  | sampleCounts => "sample_counts"

def ofName? (text : String) : Option Tag := all.find? fun t => t.name == text

theorem mem_all (t : Tag) : t ∈ all := by cases t <;> decide

/-- a name belongs to one tag only -/
theorem name_injective {a b : Tag} (h : a.name = b.name) : a = b := by
  have table : ∀ x ∈ all, ∀ y ∈ all, x.name = y.name → x = y := by decide
  exact table a (mem_all a) b (mem_all b) h

@[simp] theorem ofName?_name (t : Tag) : ofName? t.name = some t := by
  cases t <;> rfl

theorem name_of_ofName? {text : String} {t : Tag} (h : ofName? text = some t) : t.name = text := by
  simpa using List.find?_some h

end Tag

def SeriesKind.tag : SeriesKind → Tag
  | .eventRate => .eventRateGatherer
  | .metric => .metricGatherer

/-- why a document is no state -/
inductive RestoreError where
  | unrecognizedTag (name : String)
  | unexpectedTag (tag : Tag)
  | missingTag (tag : Tag)
  | invalidValue (tag : Tag) (value : String)
  | expectedLevel (tag : Tag)
  | expectedValue (tag : Tag)
  | kindMismatch (expected found : Tag)
  | invalidConfiguration (cause : ConfigError)
deriving DecidableEq

def RestoreError.message : RestoreError → String
  | unrecognizedTag name => "unrecognized state tag '" ++ name ++ "'"
  | unexpectedTag tag => "state tag '" ++ tag.name ++ "' is not expected at this level"
  | missingTag tag => "state tag '" ++ tag.name ++ "' is missing"
  | invalidValue tag value => "invalid value '" ++ value ++ "' for state tag '" ++ tag.name ++ "'"
  | expectedLevel tag => "state tag '" ++ tag.name ++ "' should hold a nested level"
  | expectedValue tag => "state tag '" ++ tag.name ++ "' should hold a value"
  | kindMismatch expected found =>
    "persisted gatherer kind is '" ++ found.name ++ "', expected '" ++ expected.name ++ "'"
  | invalidConfiguration cause =>
    "cannot restore with an invalid configuration: " ++ cause.message

end EventBuckets
