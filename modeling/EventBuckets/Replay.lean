import EventBuckets.Gatherer.Intake
import EventBuckets.Gatherer.Queries
import EventBuckets.Gatherer.Removal
import EventBuckets.Replay.Record

/-!
# Replays

A replay feeds records to a gatherer.  Each bucket is sampled once it leaves the window, in order
and once only, and its features are written as lines, followed by those of the spans that end with
it.  Buckets before the first event are skipped.

* `FeatureLine`            a feature of a bucket or span;
* `Run`                    the gatherer, the ids of the names, the next bucket to sample, and
                           tallies;
* `Run.sampleNext`         samples or skips one bucket;
* `Run.feed`, `Run.drain`  takes a record, samples what is left at the end;
* `Replay`                 the kind and configuration, and the run since the first record.
-/

namespace EventBuckets

/-- a feature of a bucket or span -/
structure FeatureLine where
  start : Int
  length : Int
  feature : Feature
  values : Readout
deriving DecidableEq

def FeatureLine.toJson (l : FeatureLine) : Json :=
  .record
    [("bucket_start", .string (calendarText l.start)),
     ("bucket_length", .ofInt l.length),
     ("feature", .string l.feature.name),
     ("values", l.values.toJson)]

def FeatureLine.render (l : FeatureLine) : String := l.toJson.render

structure Tallies where
  records : Nat
  late : Nat
  unusable : Nat
  sampled : Nat
  skipped : Nat
  lines : Nat
deriving DecidableEq, Repr

/-- a replay that has seen a record -/
structure Run where
  gatherer : Gatherer
  registry : Registry
  /-- the start of the next bucket to sample -/
  next : Int
  tallies : Tallies

namespace Run

/-- the run before a first record at `time` -/
def start (kind : SeriesKind) (config : Config) (time : Int) : Except ConfigError Run :=
  match Gatherer.new kind config time with
  | .ok g => .ok ⟨g, .empty, g.start, ⟨0, 0, 0, 0, 0, 0⟩⟩
  | .error e => .error e

/-! ## sampling -/

/-- the lengths of the intervals that end with the bucket that starts at `start` -/
def lengthsEnding (g : Gatherer) (start : Int) : List Int :=
  g.length :: g.config.spanSeconds.filter fun span => (start + g.length) % span = 0

/-- the features of an interval that say anything -/
def linesOf (g : Gatherer) (start length : Int) : List FeatureLine :=
  ((g.readouts start length).filter fun r => !r.2.isEmpty).map fun (feature, values) =>
    ⟨bucketAt start length, length, feature, values⟩

/-- samples the next bucket and writes its features, or skips it if there is no data yet -/
def sampleNext (r : Run) : List FeatureLine × Run :=
  let g := r.gatherer
  let next := r.next + g.length
  if g.available r.next then
    let g := g.sample r.next
    let lines := (lengthsEnding g r.next).flatMap (linesOf g r.next)
    (lines, { r with
      gatherer := (g.release r.next).2
      next
      tallies :=
        { r.tallies with
          sampled := r.tallies.sampled + 1
          lines := r.tallies.lines + lines.length } })
  else
    ([], { r with
      gatherer := g.skip r.next
      next
      tallies := { r.tallies with skipped := r.tallies.skipped + 1 } })

/-- samples a number of buckets, their lines after the given ones -/
def sampleTimes : Nat → Array FeatureLine → Run → Array FeatureLine × Run
  | 0, written, r => (written, r)
  | n + 1, written, r =>
    let (lines, r) := r.sampleNext
    sampleTimes n (written ++ lines) r

/-- the number of buckets from the next one to sample through the one that starts at `last` -/
def pending (r : Run) (last : Int) : Nat :=
  if last < r.next then 0 else (bucketsBetween r.next last r.gatherer.length + 1).toNat

/-- samples the buckets through the one that starts at `last` -/
def sampleThrough (r : Run) (last : Int) : Array FeatureLine × Run :=
  sampleTimes (r.pending last) #[] r

/-- samples the buckets that a record at `time` pushes out of the window -/
def sampleUntil (r : Run) (time : Int) : Array FeatureLine × Run :=
  let g := r.gatherer
  r.sampleThrough (bucketAt time g.length - (g.latency + 1) * g.length)

def drain (r : Run) : Array FeatureLine × Run := r.sampleThrough r.gatherer.start

/-! ## records -/

/-- the id of a name, if there is a name -/
def idOf (t : NameTable) : Option String → Option Nat × NameTable
  | some name =>
    let (id, t) := t.add name
    (some id, t)
  | none => (none, t)

/-- the event of a record, whose names get ids -/
def register (registry : Registry) (x : Record) : Event × Registry :=
  let (person, people) := idOf registry.people x.person
  let (attr, attributes) := idOf registry.attributes x.attr
  (⟨some x.time, person, attr, x.values, x.count, x.text, x.influences, x.isNull⟩,
    ⟨people, attributes⟩)

/-- the event with the raw value of its record taken in, if it has one; none if it is of no use -/
def usable? (kind : SeriesKind) (x : Record) (e : Event) : Option Event :=
  match x.value with
  | some raw => Series.interpret? kind (some raw) e
  | none => some e

def intake (r : Run) (x : Record) : Except IntakeError Run :=
  let (e, registry) := register r.registry x
  let r := { r with registry }
  match usable? r.gatherer.kind x e with
  | none => .ok { r with tallies := { r.tallies with unusable := r.tallies.unusable + 1 } }
  | some e =>
    match r.gatherer.add registry.directory e with
    | (.error err, _) => .error err
    | (.ok inTime, g) =>
      let late := if inTime then r.tallies.late else r.tallies.late + 1
      .ok { r with gatherer := g, tallies := { r.tallies with late } }

/-- samples what a record pushes out of the window, then takes it in -/
def feed (r : Run) (x : Record) : Array FeatureLine × Except IntakeError Run :=
  let r := { r with tallies := { r.tallies with records := r.tallies.records + 1 } }
  let (lines, r) := r.sampleUntil x.time
  (lines, r.intake x)

end Run

inductive ReplayError where
  | config (cause : ConfigError)
  | intake (cause : IntakeError)
deriving DecidableEq

def ReplayError.message : ReplayError → String
  | config cause => cause.message
  | intake cause => cause.message

/-- a replay, whose run begins with the first record -/
structure Replay where
  kind : SeriesKind
  config : Config
  run : Option Run

namespace Replay

def new (kind : SeriesKind) (config : Config) : Except ConfigError Replay :=
  match config.fault? kind with
  | some e => .error e
  | none => .ok ⟨kind, config, none⟩

/-- the run, which begins at `time` if there is none yet -/
def begun (r : Replay) (time : Int) : Except ConfigError Run :=
  match r.run with
  | some run => .ok run
  | none => Run.start r.kind r.config time

/-- takes a record; the lines written before a failure stay written -/
def feed (r : Replay) (x : Record) : Array FeatureLine × Except ReplayError Replay :=
  match r.begun x.time with
  | .error e => (#[], .error (.config e))
  | .ok run =>
    match run.feed x with
    | (lines, .ok run) => (lines, .ok { r with run := some run })
    | (lines, .error e) => (lines, .error (.intake e))

/-- takes records in turn, up to a failure; their lines follow the given ones -/
def feedAll (written : Array FeatureLine) (r : Replay) :
    List Record → Array FeatureLine × Except ReplayError Replay
  | [] => (written, .ok r)
  | x :: xs =>
    match r.feed x with
    | (lines, .ok r) => feedAll (written ++ lines) r xs
    | (lines, .error e) => (written ++ lines, .error e)

def finish (r : Replay) : Array FeatureLine × Replay :=
  match r.run with
  | some run =>
    let (lines, run) := run.drain
    (lines, { r with run := some run })
  | none => (#[], r)

def tallies (r : Replay) : Tallies := (r.run.map Run.tallies).getD ⟨0, 0, 0, 0, 0, 0⟩

def gatherer? (r : Replay) : Option Gatherer := r.run.map Run.gatherer

end Replay

end EventBuckets
