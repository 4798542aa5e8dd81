import EventBuckets.Gatherer
import EventBuckets.Registry

/-!
# Taking in events

* `Fate`           what becomes of an event whose time is known;
* `Gatherer.fate`  the table of fates: a late event comes first, then the ids, the values and the
                   limits of the configuration;
* `Gatherer.add`   takes in an event.  An error, a late event and an ignored event leave the
                   gatherer as it is.
-/

namespace EventBuckets

inductive IdSpace where
  | people
  | attributes
deriving DecidableEq, Repr

def IdSpace.name : IdSpace → String
  | people => "people"
  | attributes => "attributes"

inductive IntakeError where
  | unknownPerson (id : Nat)
  | unknownAttribute (id : Nat)
  | capacityExhausted (space : IdSpace) (requested limit : Nat)
  | missingTime
deriving DecidableEq, Repr

def IntakeError.message : IntakeError → String
  | unknownPerson id => "person id " ++ toString id ++ " was never allocated by the registry"
  | unknownAttribute id => "attribute id " ++ toString id ++ " was never allocated by the registry"
  | capacityExhausted space requested limit =>
    "cannot grow " ++ space.name ++ " to hold id " ++ toString requested ++ ", limit is "
      ++ toString limit
  | missingTime => "event data has no time"

/-- what becomes of an event whose time is known -/
inductive Fate where
  /-- it is before the window -/
  | late
  /-- an id is recycled, or a value is not finite -/
  | ignored
  /-- an id is missing, so that it only moves the clock -/
  | clockOnly
  /-- it belongs to a pair -/
  | taken (pair : Pair)
deriving DecidableEq, Repr

/-- the limit of a configuration that a pair exceeds, that of the people first -/
def Config.limitFault? (c : Config) (p : Pair) : Option IntakeError :=
  match c.maxPeople.filter fun limit => limit ≤ p.person with
  | some limit => some (.capacityExhausted .people p.person limit)
  | none =>
    (c.maxAttributes.filter fun limit => limit ≤ p.attr).map fun limit =>
      .capacityExhausted .attributes p.attr limit

namespace Gatherer

def fate (g : Gatherer) (d : Directory) (e : Event) (time : Int) : Except IntakeError Fate :=
  if time < g.oldest then .ok .late
  else
    match e.person, e.attr with
    | some person, some attr =>
      match d.person person, d.attr attr with
      | .unknown, _ => .error (.unknownPerson person)
      | .recycled, _ => .ok .ignored
      | .active, .unknown => .error (.unknownAttribute attr)
      | .active, .recycled => .ok .ignored
      | .active, .active =>
        if e.values.all Binary64.isFinite then
          match g.config.limitFault? ⟨person, attr⟩ with
          | some err => .error err
          | none => .ok (.taken ⟨person, attr⟩)
        else .ok .ignored
    | _, _ => .ok .clockOnly

def keepTexts (g : Gatherer) (texts : List String) : Gatherer :=
  { g with pool := texts.foldl TextPool.intern g.pool }

/-- counts `n` occurrences of a pair in the bucket that holds `time`, with their influences and
their part of the series -/
def count (g : Gatherer) (e : Event) (time : Int) (p : Pair) (n : Nat) : Gatherer :=
  { g.keepTexts (e.influences.filterMap id ++ g.series.textsToKeep time e) with
    counts := g.counts.modify time fun bucket =>
      (bucket.countPair p n).countInfluences p e.influences n
    series := g.series.add time p e }

/-- notes an explicit null of a pair in the bucket that holds `time` -/
def markNull (g : Gatherer) (time : Int) (p : Pair) : Gatherer :=
  { g with counts := g.counts.modify time fun bucket => bucket.markNull p }

/-- puts an event of a pair into its bucket; an event without occurrences stays out -/
def record (g : Gatherer) (e : Event) (time : Int) (p : Pair) : Gatherer :=
  let n := e.count.getD 0
  if n = 0 ∨ !g.counts.ring.contains time then g
  else if e.isNull then g.markNull time p
  else g.count e time p n

def widen (g : Gatherer) (p : Pair) : Gatherer := { g with bounds := g.bounds.widen p }

/-- takes in an event, and says whether it was in time -/
def add (g : Gatherer) (d : Directory) (e : Event) : Except IntakeError Bool × Gatherer :=
  match e.time with
  | none => (.error .missingTime, g)
  | some time =>
    match g.fate d e time with
    | .error err => (.error err, g)
    | .ok .late => (.ok false, g)
    | .ok .ignored => (.ok true, g)
    | .ok .clockOnly => (.ok true, g.observe time)
    | .ok (.taken p) => (.ok true, ((g.widen p).observe time).record e time p)

end Gatherer

end EventBuckets
