import EventBuckets.Bucket.Data
import EventBuckets.Grid

/-!
# Spans of several buckets

Each configured span length has one open span at most: the latest one a sampled bucket fell into.
Buckets of that span are merged into it, a bucket of a later span opens that one instead, and a
bucket of an earlier span is left out.

* `OpenSpan`       the start of a span and what has been merged into it;
* `Spans`          the open span of each length, lengths ascending;
* `Spans.sample`   takes a bucket into every length;
* `Spans.get?`     the data of the span that holds a time, if it is the open one;
* `Spans.release`  closes the spans that ended by a time.
-/

namespace EventBuckets

/-- the start of a span and the data of its buckets -/
structure OpenSpan (α : Type) where
  start : Int
  contents : α

structure Spans (α : Type) where
  byLength : Std.ExtTreeMap Int (Option (OpenSpan α)) compare

namespace Spans

variable {α : Type}

/-- no open span of any of the lengths -/
def new (lengths : List Int) : Spans α :=
  ⟨lengths.foldl (fun m length => m.insert length none) ∅⟩

def lengths (s : Spans α) : List Int := s.byLength.keys

def hasLength (s : Spans α) (length : Int) : Bool := s.byLength.contains length

/-- the data of the span of a length that holds `time`, if it is open -/
def get? (s : Spans α) (length time : Int) : Option α :=
  match s.byLength[length]? with
  | some (some span) => if span.start = bucketAt time length then some span.contents else none
  | _ => none

def clear (s : Spans α) : Spans α := ⟨s.byLength.map fun _ _ => none⟩

/-- whether an open span of a length ended by `cutoff` -/
def ended (cutoff length : Int) : Option (OpenSpan α) → Bool
  | some span => bucketAfter span.start length ≤ cutoff
  | none => false

/-- closes the spans that ended by `cutoff`, and counts them -/
def release (s : Spans α) (cutoff : Int) : Spans α × Nat :=
  (⟨s.byLength.map fun length span => if ended cutoff length span then none else span⟩,
    s.byLength.toList.countP fun e => ended cutoff e.1 e.2)

/-- the open span of a length after the bucket that starts at `time` -/
def sampled [EmptyCollection α] [Merge α] (time : Int) (bucket : α) (length : Int)
    (span : Option (OpenSpan α)) : Option (OpenSpan α) :=
  let start := bucketAt time length
  match span with
  | some current =>
    if current.start = start then some ⟨start, merge current.contents bucket⟩
    else if start < current.start then some current
    else some ⟨start, merge ∅ bucket⟩
  | none => some ⟨start, merge ∅ bucket⟩

/-- takes the bucket that starts at `time` into every length -/
def sample [EmptyCollection α] [Merge α] (s : Spans α) (time : Int) (bucket : α) : Spans α :=
  ⟨s.byLength.map (sampled time bucket)⟩

instance [Hashing] [Checksum α] : Checksum (Spans α) where
  checksum s :=
    chainAll 0 <| s.byLength.toList.map fun (length, span) =>
      match span with
      | some span => chainAll (hashTime length) [hashTime span.start, checksum span.contents]
      | none => hashTime length

/-! ## state -/

def spanNodes [Persist α] (length : Int) (span : Option (OpenSpan α)) : List Node :=
  Tag.span.int length ::
    match span with
    | some span => [Tag.spanStart.int span.start, Tag.bucket.level (persist span.contents)]
    | none => []

def nodes [Persist α] (s : Spans α) : List Node :=
  s.byLength.toList.map fun (length, span) => Tag.span.level (spanNodes length span)

/-- the fields of a span; a field that is repeated counts as written last -/
structure Fields (α : Type) where
  length : Option Int
  start : Option Int
  contents : Option α

def readField [Persist α] (f : Fields α) (n : Node) : Restore (Fields α) := do
  let t ← n.tag?
  match t with
  | .span => return { f with length := some (← n.time t) }
  | .spanStart => return { f with start := some (← n.time t) }
  | .bucket => return { f with contents := some (← restore (← n.children t)) }
  | t => throw (.unexpectedTag t)

/-- the open span that fields describe; contents without a start are dropped -/
def Fields.span (f : Fields α) : Except RestoreError (Option (OpenSpan α)) :=
  match f.start with
  | some start => do return some ⟨start, ← required .bucket f.contents⟩
  | none => .ok none

/-- takes up one node: a span of a configured length that was not there before -/
def readSpan [Persist α] (state : Spans α × Std.ExtTreeSet Int compare) (n : Node) :
    Restore (Spans α × Std.ExtTreeSet Int compare) := do
  let (s, seen) := state
  let t ← n.tag?
  if t ≠ .span then throw (.unexpectedTag t)
  let f ← (← n.children t).foldlM readField ⟨none, none, none⟩
  let length ← required .span f.length
  if !s.hasLength length || seen.contains length then
    throw (.invalidValue .span (toString length))
  return (⟨s.byLength.insert length (← f.span)⟩, seen.insert length)

/-- the spans that nodes describe, whose lengths are exactly the configured ones -/
def ofNodes [Persist α] (lengths : List Int) (nodes : List Node) : Restore (Spans α) := do
  let (s, seen) ← nodes.foldlM readSpan (new lengths, ∅)
  if s.lengths.any fun length => !seen.contains length then throw (.missingTag .span)
  return s

end Spans

end EventBuckets
