import EventBuckets.Decimal.Layout

/-!
# Configuration

* `SeriesKind`, `Feature`  what is gathered, and what is read out of a bucket;
* `Duration`               seconds in an unsigned word and nanoseconds; `Duration.seconds` reads the
                           word as a signed one, so lengths from `2 ^ 63` on come out negative;
* `Config`                 the settings of a gatherer;
* `Config.fault?`          the first fault of a configuration, if it has one.
* `Config.featuresFor`     the features that are read out, in order and without repetition.
-/

namespace EventBuckets

inductive SeriesKind where
  | eventRate
  | metric
deriving DecidableEq, Repr

/-- the statistics that can be read out of a bucket -/
inductive Feature where
  /-- the counts of a person, summed over attributes -/
  | countByPerson
  /-- a one for each person with a count -/
  | nonZeroCountByPerson
  /-- the number of distinct texts of a person -/
  | uniqueCountByPerson
  | countByPair
  | mean
  | min
  | max
  | sum
deriving DecidableEq, Repr

namespace SeriesKind

def all : List SeriesKind := [eventRate, metric]

def name : SeriesKind → String
  | eventRate => "event_rate"
  | metric => "metric"

def ofName? (text : String) : Option SeriesKind := all.find? fun k => k.name == text

/-- the features of a configuration that names none -/
def defaultFeatures : SeriesKind → List Feature
  | eventRate => [.countByPerson]
  | metric => [.mean]

end SeriesKind

namespace Feature

def all : List Feature :=
  [countByPerson, nonZeroCountByPerson, uniqueCountByPerson, countByPair, mean, min, max, sum]

def name : Feature → String
  | countByPerson => "count_by_bucket_and_person"
  | nonZeroCountByPerson => "non_zero_count_by_bucket_and_person"
  | uniqueCountByPerson => "unique_count_by_bucket_and_person"
  | countByPair => "count_by_bucket_person_and_attribute"
  | mean => "mean_by_person"
  | min => "min_by_person"
  | max => "max_by_person"
  | sum => "sum_by_bucket_and_person"

def ofName? (text : String) : Option Feature := all.find? fun f => f.name == text

def kind : Feature → SeriesKind
  | countByPerson | nonZeroCountByPerson | uniqueCountByPerson | countByPair => .eventRate
  | mean | min | max | sum => .metric

end Feature

structure Duration where
  secs : UInt64
  nanos : Nat
deriving DecidableEq, Repr

namespace Duration

def ofSecs (secs : UInt64) : Duration := ⟨secs, 0⟩

/-- the seconds as a signed number of 64 bits -/
def seconds (d : Duration) : Int := d.secs.toInt64.toInt

def toFloat (d : Duration) : Binary64 :=
  .ofNat d.secs.toNat + .ofNat d.nanos / .ofNat 1000000000

end Duration

structure Config where
  bucketLength : Duration
  /-- how many buckets before the current one still take records -/
  latencyBuckets : Nat
  multiBucketLengths : List Duration
  /-- the features to read out, those of the kind if empty -/
  features : List Feature
  maxPeople : Option Nat
  maxAttributes : Option Nat
  /-- the share of a new bucket in the smoothed sample counts -/
  sampleCountWeight : Binary64
deriving DecidableEq

inductive ConfigError where
  | bucketLength
  | multiBucketLength (length : Duration)
  | sampleCountWeight (weight : Binary64)
  | featureNotSupported (feature : Feature) (kind : SeriesKind)
deriving DecidableEq

def ConfigError.message : ConfigError → String
  | bucketLength => "bucket_length must be a positive whole number of seconds"
  | multiBucketLength length =>
    "multi bucket length " ++ floatText length.toFloat
      ++ "s must be a multiple of, and longer than, bucket_length"
  | sampleCountWeight weight => "sample_count_weight " ++ floatText weight ++ " must be in (0, 1]"
  | featureNotSupported feature kind =>
    "feature \"" ++ feature.name ++ "\" is not supported by \"" ++ kind.name ++ "\" series"

namespace Config

def defaultWeight : Binary64 := ⟨0x3fb999999999999a⟩

/-- buckets of five minutes that take no late record -/
def default : Config :=
  ⟨.ofSecs 300, 0, [], [], none, none, defaultWeight⟩

def bucketSeconds (c : Config) : Int := c.bucketLength.seconds

def spanSeconds (c : Config) : List Int := c.multiBucketLengths.map Duration.seconds

/-- the features to read out, in order and without repetition -/
def featuresFor (c : Config) (kind : SeriesKind) : List Feature :=
  if c.features.isEmpty then kind.defaultFeatures
  else Feature.all.filter fun f => f ∈ c.features

/-- whether a multi-bucket length is a longer multiple of the bucket length -/
def fitsSpan (bucket length : Duration) : Bool :=
  length.nanos = 0 && bucket.secs < length.secs && length.secs % bucket.secs = 0

/-- whether a float is above zero and at most one -/
def isShare (x : Binary64) : Bool := 0 < x.key && x.key ≤ (1 : Binary64).key

def fault? (c : Config) (kind : SeriesKind) : Option ConfigError :=
  if c.bucketLength.secs = 0 ∨ c.bucketLength.nanos ≠ 0 then some .bucketLength
  else
    match c.multiBucketLengths.find? fun length => !fitsSpan c.bucketLength length with
    | some length => some (.multiBucketLength length)
    | none =>
      if !isShare c.sampleCountWeight then some (.sampleCountWeight c.sampleCountWeight)
      else
        (c.features.find? fun f => f.kind ≠ kind).map fun f => .featureNotSupported f kind

end Config

end EventBuckets
