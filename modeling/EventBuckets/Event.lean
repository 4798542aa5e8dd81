import EventBuckets.Json.Fields

/-!
# Events

An event is a record whose person and attribute have ids.  Without a person, an attribute or a count
it is taken in, but changes no bucket.  The influence at a position belongs to the influencing field
at that position.

* `Event`          the record;
* `Event.ofJson?`  its lists and its null mark are required, all else may be null;
* `Event.toJson`   all fields in order.
-/

namespace EventBuckets

structure Event where
  time : Option Int
  person : Option Nat
  attr : Option Nat
  values : List Binary64
  count : Option Nat
  text : Option String
  influences : List (Option String)
  isNull : Bool
deriving DecidableEq

namespace Event

def fieldNames : List String :=
  ["time", "person_id", "attribute_id", "values", "count", "string_value", "influences",
    "is_explicit_null"]

def ofJson? (j : Json) : Option Event := do
  let f ← j.fields? fieldNames
  return {
    time := ← f.optional "time" Json.time?
    person := ← f.optional "person_id" Json.word?
    attr := ← f.optional "attribute_id" Json.word?
    values := ← f.required "values" (Json.list? Json.float?)
    count := ← f.optional "count" Json.word?
    text := ← f.optional "string_value" Json.string?
    influences := ← f.required "influences" (Json.list? (Json.nullable? Json.string?))
    isNull := ← f.required "is_explicit_null" Json.bool? }

def toJson (e : Event) : Json :=
  .record
    [("time", .ofOption .ofInt e.time),
     ("person_id", .ofOption .ofNat e.person),
     ("attribute_id", .ofOption .ofNat e.attr),
     ("values", .ofList .ofFloat e.values),
     ("count", .ofOption .ofNat e.count),
     ("string_value", .ofOption .string e.text),
     ("influences", .ofList (.ofOption .string) e.influences),
     ("is_explicit_null", .bool e.isNull)]

end Event

end EventBuckets
