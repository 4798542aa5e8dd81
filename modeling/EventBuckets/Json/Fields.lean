import EventBuckets.Json.Number

/-!
# Records in JSON

A record is an object, or an array of its fields in order.  In an object unknown names are passed
over, a known name may stand once, and a missing optional field is null; in an array fields may be
missing at the end only, and only those with a default.

* `Fields`        the known fields that were found;
* `Json.fields?`  the fields of a record with the given names;
* `Fields.required`, `Fields.optional`, `Fields.withDefault`
                  how a field is taken.
-/

namespace EventBuckets

/-- the known fields found in a record, and whether it was written as an array -/
structure Fields where
  positional : Bool
  entries : List (String × Json)

namespace Json

/-- the members with known names, each at most once; every name is a text -/
def knownMembers (names : List String) : List (Option String × Json) → Option (List (String × Json))
  | [] => some []
  | (none, _) :: _ => none
  | (some name, value) :: ms =>
    (knownMembers names ms).bind fun rest =>
      if name ∈ names then
        if (rest.lookup name).isSome then none else some ((name, value) :: rest)
      else some rest

def fields? (names : List String) : Json → Option Fields
  | object members => (knownMembers names members).map fun entries => ⟨false, entries⟩
  | array items =>
    if items.length ≤ names.length then some ⟨true, names.zip items⟩ else none
  | _ => none

def string? : Json → Option String
  | string text => some text
  | _ => none

def bool? : Json → Option Bool
  | bool value => some value
  | _ => none

/-- the items of an array, each read by `read` -/
def list? {α : Type} (read : Json → Option α) : Json → Option (List α)
  | array items => items.mapM read
  | _ => none

/-- null, or a value read by `read` -/
def nullable? {α : Type} (read : Json → Option α) : Json → Option (Option α)
  | null => some none
  | j => (read j).map some

def single? : Json → Option (String × Json)
  | object [(some name, value)] => some (name, value)
  | _ => none

/-- the name of a variant without contents: a string, or an object that gives it null -/
def variant? : Json → Option String
  | string text => some text
  | object [(some name, null)] => some name
  | _ => none

end Json

namespace Fields

variable {α : Type}

def find? (f : Fields) (name : String) : Option Json := f.entries.lookup name

def required (f : Fields) (name : String) (read : Json → Option α) : Option α :=
  (f.find? name).bind read

/-- a field that is null where an object leaves it out -/
def optional (f : Fields) (name : String) (read : Json → Option α) : Option (Option α) :=
  match f.find? name with
  | some j => Json.nullable? read j
  | none => if f.positional then none else some none

def withDefault (f : Fields) (name : String) (default : α) (read : Json → Option α) : Option α :=
  match f.find? name with
  | some j => read j
  | none => some default

end Fields

end EventBuckets
