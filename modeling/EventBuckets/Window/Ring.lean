import EventBuckets.Bucket.Data
import EventBuckets.Grid

/-!
# Rings of buckets

A ring holds a fixed number of consecutive buckets.  The bucket that starts at `t` lives in slot
`t / length` modulo the number of slots, so rolling forward never moves data: the slot of the bucket
that falls out is overwritten.

* `Ring`                      the ring; `Ring.oldest` and `Ring.newest` bound its window;
* `Ring.get?`, `Ring.modify`  the bucket that holds a time, if it is in the window;
* `Ring.push`                 makes a later bucket the newest one, and empties those skipped over;
* `Ring.entries`              the buckets with their starts, the oldest first;
* `Ring.mapTimed`             changes every bucket, each given its start.

Slots are determined by starts, so two rings with the same window and the same bucket at each start
are equal.
-/

namespace EventBuckets

/-- consecutive buckets in slots -/
structure Ring (α : Type) where
  length : Int
  /-- the start of the newest bucket -/
  newest : Int
  slots : Array α

/-- the slot of the bucket that starts at `start` -/
def slotOf (length : Int) (capacity : Nat) (start : Int) : Nat :=
  ((start / length) % capacity).toNat

namespace Ring

variable {α : Type}

/-- empty buckets, `latency` of them before the one that holds `time` -/
def new [EmptyCollection α] (latency : Nat) (length time : Int) : Ring α :=
  ⟨length, bucketAt time length, Array.replicate (latency + 1) ∅⟩

def capacity (r : Ring α) : Nat := r.slots.size

/-- the start of the oldest bucket -/
def oldest (r : Ring α) : Int := r.newest - (r.capacity - 1) * r.length

/-- the starts of the buckets, ascending -/
def starts (r : Ring α) : List Int :=
  (List.range r.capacity).map fun (k : Nat) => r.oldest + k * r.length

def slot (r : Ring α) (start : Int) : Nat := slotOf r.length r.capacity start

/-- whether the bucket that holds `time` is in the window -/
def contains (r : Ring α) (time : Int) : Bool :=
  r.oldest ≤ bucketAt time r.length && bucketAt time r.length ≤ r.newest

def get? (r : Ring α) (time : Int) : Option α :=
  if r.contains time then r.slots[r.slot (bucketAt time r.length)]? else none

/-- changes the bucket that holds `time`; nothing changes outside of the window -/
def modify (r : Ring α) (time : Int) (f : α → α) : Ring α :=
  if r.contains time then
    { r with slots := r.slots.modify (r.slot (bucketAt time r.length)) f }
  else r

/-- empties the slots of the `n` buckets after the newest one -/
def clearAhead [EmptyCollection α] (r : Ring α) (n : Nat) : Array α :=
  (List.range n).foldl
    (fun slots (k : Nat) => slots.setIfInBounds (r.slot (r.newest + (k + 1) * r.length)) ∅) r.slots

/-- the number of buckets to empty on the way to the later one that starts at `start`: those in
between, and all of the ring where the length is negative and so leads away from `start` -/
def skippedBefore (r : Ring α) (start : Int) : Nat :=
  let skipped := bucketsBetween r.newest start r.length - 1
  if skipped < 0 then r.capacity else min skipped.toNat r.capacity

/-- makes the bucket that holds `time` the newest one, holding `item`, and empties the buckets
skipped over; a bucket that is not after the newest one is refused -/
def push [EmptyCollection α] (r : Ring α) (item : α) (time : Int) : Option (Ring α) :=
  let start := bucketAt time r.length
  if start ≤ r.newest then none
  else
    let slots := r.clearAhead (r.skippedBefore start)
    some { r with newest := start, slots := slots.setIfInBounds (r.slot start) item }

def clear [EmptyCollection α] (r : Ring α) : Ring α := { r with slots := r.slots.map fun _ => ∅ }

/-- empties every bucket and moves the window so that the newest bucket holds `time` -/
def reset [EmptyCollection α] (r : Ring α) (time : Int) : Ring α :=
  { r.clear with newest := bucketAt time r.length }

/-- the buckets with their starts, the oldest first -/
def entries (r : Ring α) : List (Int × α) :=
  let first := r.slot r.oldest
  (r.slots.toList.drop first ++ r.slots.toList.take first).mapIdx
    fun (k : Nat) item => (r.oldest + k * r.length, item)

/-- the start of the bucket in a slot -/
def startOfSlot (r : Ring α) (slot : Nat) : Int :=
  r.oldest + (((slot : Int) - r.slot r.oldest) % r.capacity) * r.length

/-- changes every bucket, each given its start -/
def mapTimed (r : Ring α) (f : Int → α → α) : Ring α :=
  { r with slots := r.slots.mapIdx fun slot item => f (r.startOfSlot slot) item }

/-! ## the window of each operation -/

theorem skippedBefore_le_capacity (r : Ring α) (start : Int) :
    r.skippedBefore start ≤ r.capacity := by
  unfold skippedBefore
  simp only
  split
  · exact Nat.le_refl _
  · exact Nat.min_le_right _ _

@[simp] theorem capacity_new [EmptyCollection α] (latency : Nat) (length time : Int) :
    (new latency length time : Ring α).capacity = latency + 1 := by
  simp [new, capacity]

@[simp] theorem capacity_modify (r : Ring α) (time : Int) (f : α → α) :
    (r.modify time f).capacity = r.capacity := by
  unfold modify capacity
  split <;> simp

@[simp] theorem newest_modify (r : Ring α) (time : Int) (f : α → α) :
    (r.modify time f).newest = r.newest := by
  unfold modify
  split <;> rfl

@[simp] theorem capacity_clear [EmptyCollection α] (r : Ring α) :
    r.clear.capacity = r.capacity := by
  simp [clear, capacity]

@[simp] theorem capacity_mapTimed (r : Ring α) (f : Int → α → α) :
    (r.mapTimed f).capacity = r.capacity := by
  simp [mapTimed, capacity]

/-- nothing is found outside of the window -/
theorem get?_eq_none_of_not_contains {r : Ring α} {time : Int} (h : r.contains time = false) :
    r.get? time = none := by
  simp [get?, h]

@[simp] theorem length_entries (r : Ring α) : r.entries.length = r.capacity := by
  simp [entries, capacity]
  omega

@[simp] theorem length_starts (r : Ring α) : r.starts.length = r.capacity := by
  simp [starts]

/-! ## checksum -/

instance [Hashing] [Checksum α] : Checksum (Ring α) where
  checksum r :=
    chainAll (hashTime r.newest) <|
      r.entries.map fun (start, item) => chain (hashTime start) (checksum item)

/-! ## state -/

def nodes [Persist α] (r : Ring α) : List Node :=
  Tag.latestStart.int r.newest ::
    r.entries.map fun (start, item) => Tag.bucket.level (Tag.time.int start :: persist item)

/-- the bucket that the nodes of a level describe, put into its place -/
def readBucket [Persist α] (r : Ring α) (nodes : List Node) : Restore (Ring α) :=
  match nodes with
  | [] => throw (.missingTag .time)
  | first :: rest => do
    if (← first.tag?) ≠ .time then throw (.missingTag .time)
    let time ← first.time .time
    let item ← restore rest
    if r.contains time then return r.modify time fun _ => item
    else throw (.invalidValue .time (toString time))

/-- takes up one node; a start of the window begins anew -/
def readNode [EmptyCollection α] [Persist α] (latency : Nat) (length : Int) (r : Option (Ring α))
    (n : Node) : Restore (Option (Ring α)) := do
  let t ← n.tag?
  match t with
  | .latestStart => return some (new latency length (← n.time t))
  | .bucket => do
    let r ← required .latestStart r
    return some (← r.readBucket (← n.children t))
  | t => throw (.unexpectedTag t)

/-- the ring that nodes describe, with room for `latency` buckets before the newest one -/
def ofNodes [EmptyCollection α] [Persist α] (latency : Nat) (length : Int) (nodes : List Node) :
    Restore (Ring α) := do
  required .latestStart (← nodes.foldlM (readNode latency length) none)

end Ring

end EventBuckets
