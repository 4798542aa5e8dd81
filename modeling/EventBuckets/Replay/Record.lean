import EventBuckets.Json.Fields
import EventBuckets.Json.Reader

/-!
# Records

A record is a line of input: an event whose person and attribute are named, with its raw value.

* `Record`          the record.  Only its time is required.  A missing count is a one, a null count
                    is none at all;
* `Record.ofText?`  reads a line;
* `Record.toJson`   the record without the fields that are empty.
-/

namespace EventBuckets

structure Record where
  time : Int
  person : Option String
  attr : Option String
  /-- the raw value, which the series interprets -/
  value : Option String
  values : List Binary64
  count : Option Nat
  text : Option String
  influences : List (Option String)
  isNull : Bool
deriving DecidableEq

namespace Record

def fieldNames : List String :=
  ["time", "person", "attribute", "value", "values", "count", "string_value", "influences",
    "explicit_null"]

def ofJson? (j : Json) : Option Record := do
  let f ← j.fields? fieldNames
  let name := Json.nullable? Json.string?
  return {
    time := ← f.required "time" Json.time?
    person := ← f.withDefault "person" none name
    attr := ← f.withDefault "attribute" none name
    value := ← f.withDefault "value" none name
    values := ← f.withDefault "values" [] (Json.list? Json.float?)
    count := ← f.withDefault "count" (some 1) (Json.nullable? Json.word?)
    text := ← f.withDefault "string_value" none name
    influences := ← f.withDefault "influences" [] (Json.list? name)
    isNull := ← f.withDefault "explicit_null" false Json.bool? }

/-- the record that a line writes -/
def ofText? (line : String) : Option Record := (Json.parse line).bind ofJson?

def textField (name : String) (text : Option String) : List (String × Json) :=
  text.toList.map fun t => (name, .string t)

def listField {α : Type} (name : String) (f : α → Json) (as : List α) : List (String × Json) :=
  if as.isEmpty then [] else [(name, .ofList f as)]

def toJson (r : Record) : Json :=
  .record <|
    [("time", .ofInt r.time)]
    ++ textField "person" r.person
    ++ textField "attribute" r.attr
    ++ textField "value" r.value
    ++ listField "values" .ofFloat r.values
    ++ [("count", .ofOption .ofNat r.count)]
    ++ textField "string_value" r.text
    ++ listField "influences" (.ofOption .string) r.influences
    ++ [("explicit_null", .bool r.isNull)]

end Record

end EventBuckets
