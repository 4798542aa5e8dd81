import Mathlib
import EventBuckets.Proofs.Ring

/-!
# A ring shows a window of a map

A map from bucket starts to items never forgets and is as large as it needs to be.  A ring does as
if it kept such a map and showed the last buckets of it, through any run of its operations.

* `RingOp`, `Ring.perform`, `Ring.run`   the operations that change a ring;
* `TimedMap`                             the map, with the same operations;
* `Ring.Shows`                           what is found in the ring is what the window of the map holds;
* `Shows.perform`                        one operation keeps the two together, and answers the same;
* `shows_run`                            so does every run from a new ring.
-/

set_option linter.unusedSectionVars false

namespace EventBuckets

/-- an operation that changes a ring -/
inductive RingOp (α : Type) where
  | push (item : α) (time : Int)
  /-- changes the item found for a time -/
  | edit (time : Int) (f : α → α)
  | clear
  | reset (time : Int)

variable {α : Type} [EmptyCollection α]

/-- carries out an operation, and tells whether there was a bucket for it -/
def Ring.perform (r : Ring α) : RingOp α → Bool × Ring α
  | .push x t =>
    match r.push x t with
    | some r' => (true, r')
    | none => (false, r)
  | .edit t f => ((r.get? t).isSome, r.modify t f)
  | .clear => (true, r.clear)
  | .reset t => (true, r.reset t)

/-- the ring after operations -/
def Ring.run (r : Ring α) (ops : List (RingOp α)) : Ring α :=
  ops.foldl (fun r op => (r.perform op).2) r

/-! ## the map -/

/-- items by bucket start, with a window of the newest start and `latency` starts before it -/
structure TimedMap (α : Type) where
  length : Int
  latency : Nat
  newest : Int
  /-- the item last stored for a start -/
  item : Int → α

namespace TimedMap

def new (latency : Nat) (length time : Int) : TimedMap α :=
  ⟨length, latency, bucketAt time length, fun _ => ∅⟩

/-- whether the bucket that holds `time` is in the window -/
def Holds (m : TimedMap α) (time : Int) : Prop :=
  m.newest - m.latency * m.length ≤ bucketAt time m.length ∧ bucketAt time m.length ≤ m.newest

instance (m : TimedMap α) (time : Int) : Decidable (m.Holds time) :=
  inferInstanceAs (Decidable (_ ∧ _))

def get? (m : TimedMap α) (time : Int) : Option α :=
  if m.Holds time then some (m.item (bucketAt time m.length)) else none

/-- stores an item for the bucket that holds `time` -/
def store (m : TimedMap α) (time : Int) (x : α) : TimedMap α :=
  { m with item := Function.update m.item (bucketAt time m.length) x }

/-- stores an item for the bucket that holds `time`, which becomes the newest one -/
def push (m : TimedMap α) (x : α) (time : Int) : TimedMap α :=
  { m.store time x with newest := bucketAt time m.length }

def clear (m : TimedMap α) : TimedMap α := { m with item := fun _ => ∅ }

def reset (m : TimedMap α) (time : Int) : TimedMap α :=
  { m.clear with newest := bucketAt time m.length }

def perform (m : TimedMap α) : RingOp α → Bool × TimedMap α
  | .push x t =>
    if bucketAt t m.length ≤ m.newest then (false, m)
    else (true, m.push x t)
  | .edit t f =>
    if m.Holds t then (true, m.store t (f (m.item (bucketAt t m.length)))) else (false, m)
  | .clear => (true, m.clear)
  | .reset t => (true, m.reset t)

def run (m : TimedMap α) (ops : List (RingOp α)) : TimedMap α :=
  ops.foldl (fun m op => (m.perform op).2) m

@[simp] theorem length_perform (m : TimedMap α) (op : RingOp α) :
    (m.perform op).2.length = m.length := by
  cases op <;> simp only [perform] <;> (try split) <;> rfl

@[simp] theorem latency_perform (m : TimedMap α) (op : RingOp α) :
    (m.perform op).2.latency = m.latency := by
  cases op <;> simp only [perform] <;> (try split) <;> rfl

theorem length_run (m : TimedMap α) (ops : List (RingOp α)) : (m.run ops).length = m.length := by
  induction ops generalizing m with
  | nil => rfl
  | cons op ops ih => exact (ih _).trans (length_perform m op)

theorem latency_run (m : TimedMap α) (ops : List (RingOp α)) :
    (m.run ops).latency = m.latency := by
  induction ops generalizing m with
  | nil => rfl
  | cons op ops ih => exact (ih _).trans (latency_perform m op)

theorem get?_of_holds {m : TimedMap α} {t : Int} (h : m.Holds t) :
    m.get? t = some (m.item (bucketAt t m.length)) := if_pos h

theorem get?_of_not_holds {m : TimedMap α} {t : Int} (h : ¬m.Holds t) : m.get? t = none := if_neg h

theorem get?_store (m : TimedMap α) (t u : Int) (x : α) :
    (m.store t x).get? u = if bucketAt u m.length = bucketAt t m.length then
      (m.get? u).map fun _ => x else m.get? u := by
  have hholds : (m.store t x).Holds u ↔ m.Holds u := Iff.rfl
  by_cases hu : m.Holds u
  · rw [get?_of_holds (hholds.mpr hu), get?_of_holds hu]
    by_cases e : bucketAt u m.length = bucketAt t m.length
    · simp [store, e]
    · simp [store, e]
  · rw [get?_of_not_holds (mt hholds.mp hu), get?_of_not_holds hu]
    simp

end TimedMap

/-! ## the ring and the map -/

namespace Ring

/-- the ring covers the window of the map and holds what is stored there; later buckets are empty -/
structure Shows (r : Ring α) (m : TimedMap α) : Prop where
  covers : r.Covers m.length m.latency m.newest
  get?_eq : ∀ t, r.get? t = m.get? t
  item_of_lt : ∀ s, m.newest < s → m.item s = ∅

namespace Shows

variable {r : Ring α} {m : TimedMap α}

theorem holds_iff (h : r.Shows m) (t : Int) : r.contains t = true ↔ m.Holds t :=
  h.covers.contains_iff

theorem new {length : Int} (hl : 0 < length) (latency : Nat) (t : Int) :
    (Ring.new latency length t : Ring α).Shows (.new latency length t) where
  covers := .new hl t
  get?_eq u := by
    have hc : (Ring.new latency length t : Ring α).contains u = true ↔
        (TimedMap.new latency length t : TimedMap α).Holds u := (Covers.new hl t).contains_iff
    by_cases hu : (Ring.new latency length t : Ring α).contains u = true
    · rw [get?_new hl latency t u hu, TimedMap.get?_of_holds (hc.mp hu)]
      rfl
    · rw [get?_eq_none_of_not_contains (Bool.not_eq_true _ ▸ hu),
        TimedMap.get?_of_not_holds (mt hc.mpr hu)]
  item_of_lt _ _ := rfl

theorem clear (h : r.Shows m) : r.clear.Shows m.clear where
  covers := h.covers.clear
  get?_eq t := by
    have hholds : m.clear.Holds t ↔ m.Holds t := Iff.rfl
    rw [get?_clear, h.get?_eq]
    by_cases ht : m.Holds t
    · rw [TimedMap.get?_of_holds ht, TimedMap.get?_of_holds (hholds.mpr ht)]
      rfl
    · rw [TimedMap.get?_of_not_holds ht, TimedMap.get?_of_not_holds (mt hholds.mp ht)]
      rfl
  item_of_lt _ _ := rfl

theorem reset (h : r.Shows m) (t : Int) : (r.reset t).Shows (m.reset t) where
  covers := h.covers.reset t
  get?_eq u := by
    have hc : (r.reset t).contains u = true ↔ (m.reset t).Holds u :=
      (h.covers.reset t).contains_iff
    by_cases hu : (r.reset t).contains u = true
    · rw [get?_reset h.covers.sound t u hu, TimedMap.get?_of_holds (hc.mp hu)]
      rfl
    · rw [get?_eq_none_of_not_contains (Bool.not_eq_true _ ▸ hu),
        TimedMap.get?_of_not_holds (mt hc.mpr hu)]
  item_of_lt _ _ := rfl

theorem edit (h : r.Shows m) {t : Int} (ht : m.Holds t) (f : α → α) :
    (r.modify t f).Shows (m.store t (f (m.item (bucketAt t m.length)))) where
  covers := h.covers.modify t f
  get?_eq u := by
    rw [get?_modify h.covers.sound, TimedMap.get?_store, h.covers.length_eq, h.get?_eq]
    by_cases e : bucketAt u m.length = bucketAt t m.length
    · have hu : m.Holds u := by rwa [TimedMap.Holds, e]
      rw [if_pos e, if_pos e, TimedMap.get?_of_holds hu, e]
      rfl
    · rw [if_neg e, if_neg e]
  item_of_lt s hs := by
    have hne : s ≠ bucketAt t m.length := by
      have := ht.2
      have hs : m.newest < s := hs
      omega
    simpa [TimedMap.store, Function.update_of_ne hne] using h.item_of_lt s hs

/-- where the ring has no bucket for an edit, nothing changes -/
theorem modify_of_not_holds (h : r.Shows m) {t : Int} (ht : ¬m.Holds t) (f : α → α) :
    r.modify t f = r := by
  unfold Ring.modify
  rw [if_neg (mt (h.holds_iff t).mp ht)]

theorem push (h : r.Shows m) {t : Int} (ht : m.newest < bucketAt t m.length) (x : α) :
    ∃ r', r.push x t = some r' ∧ r'.Shows (m.push x t) := by
  have hlen := h.covers.length_eq
  have hnew := h.covers.newest_eq
  have hlt : r.newest < bucketAt t r.length := by rwa [hlen, hnew]
  obtain ⟨r', hp, hr', hl', hc', hn'⟩ := exists_push h.covers.sound hlt x
  have hcov : r'.Covers m.length m.latency (bucketAt t m.length) :=
    ⟨hr', hl'.trans hlen, hc'.trans h.covers.capacity_eq, hn'.trans (by rw [hlen])⟩
  refine ⟨r', hp, hcov, fun u => ?_, fun s hs => ?_⟩
  · -- the bucket of `u` is out of the window, an old one, one skipped over, or the new one
    have hin : (m.push x t).Holds u ↔ bucketAt t m.length - m.latency * m.length ≤ bucketAt u m.length ∧
        bucketAt u m.length ≤ bucketAt t m.length := Iff.rfl
    have hitem : (m.push x t).item (bucketAt u (m.push x t).length) =
        Function.update m.item (bucketAt t m.length) x (bucketAt u m.length) := rfl
    rw [get?_push h.covers.sound hp u, h.covers.width_eq, hlen, hnew, h.get?_eq]
    by_cases hlow : bucketAt u m.length < bucketAt t m.length - m.latency * m.length
    · rw [if_pos hlow, TimedMap.get?_of_not_holds (by rw [hin]; omega)]
    rw [if_neg hlow]
    rcases lt_trichotomy (bucketAt u m.length) (bucketAt t m.length) with hu | hu | hu
    · rw [TimedMap.get?_of_holds (hin.mpr ⟨by omega, hu.le⟩), hitem, Function.update_of_ne hu.ne]
      by_cases hold : bucketAt u m.length ≤ m.newest
      · have hu' : m.Holds u := ⟨by omega, hold⟩
        rw [if_pos hold, TimedMap.get?_of_holds hu']
      · rw [if_neg hold, if_pos hu, h.item_of_lt _ (by omega)]
    · rw [TimedMap.get?_of_holds (hin.mpr ⟨by omega, hu.le⟩), if_neg (by omega), if_neg (by omega),
        if_pos hu, hitem, hu, Function.update_self]
    · rw [if_neg (by omega), if_neg (by omega), if_neg (by omega),
        TimedMap.get?_of_not_holds (by rw [hin]; omega)]
  · have hs : bucketAt t m.length < s := hs
    show Function.update m.item (bucketAt t m.length) x s = ∅
    rw [Function.update_of_ne (by omega)]
    exact h.item_of_lt s (by omega)

/-- one operation keeps the ring and the map together, and answers the same -/
theorem perform (h : r.Shows m) (op : RingOp α) :
    (r.perform op).1 = (m.perform op).1 ∧ (r.perform op).2.Shows (m.perform op).2 := by
  cases op with
  | push x t =>
    simp only [Ring.perform, TimedMap.perform]
    by_cases ht : bucketAt t m.length ≤ m.newest
    · rw [push_eq_none (by rw [h.covers.length_eq, h.covers.newest_eq]; exact ht), if_pos ht]
      exact ⟨rfl, h⟩
    · obtain ⟨r', hp, hr'⟩ := h.push (Int.not_le.mp ht) x
      rw [hp, if_neg ht]
      exact ⟨rfl, hr'⟩
  | edit t f =>
    simp only [Ring.perform, TimedMap.perform, h.get?_eq]
    by_cases ht : m.Holds t
    · rw [TimedMap.get?_of_holds ht, if_pos ht]
      exact ⟨rfl, h.edit ht f⟩
    · rw [TimedMap.get?_of_not_holds ht, if_neg ht, h.modify_of_not_holds ht]
      exact ⟨rfl, h⟩
  | clear => exact ⟨rfl, h.clear⟩
  | reset t => exact ⟨rfl, h.reset t⟩

theorem run (h : r.Shows m) (ops : List (RingOp α)) : (r.run ops).Shows (m.run ops) := by
  induction ops generalizing r m with
  | nil => exact h
  | cons op ops ih => exact ih (h.perform op).2

end Shows

/-- a new ring shows a map through every run -/
theorem shows_run {length : Int} (hl : 0 < length) (latency : Nat) (start : Int)
    (ops : List (RingOp α)) :
    ((new latency length start : Ring α).run ops).Shows ((TimedMap.new latency length start).run ops) :=
  (Shows.new hl latency start).run ops

/-- after any run the buckets of the window, and no others, hold what was last stored for them; a
bucket that is not later than the newest one is refused, a later one empties those skipped over, and
an edit changes the bucket of its time only -/
theorem run_shows_timedMap {length : Int} (hl : 0 < length) (latency : Nat) (start : Int)
    (ops : List (RingOp α)) :
    let r := (new latency length start : Ring α).run ops
    let m := (TimedMap.new latency length start).run ops
    let first := r.newest - latency * length
    r.newest = m.newest ∧
    (∀ t, r.get? t = if first ≤ bucketAt t length ∧ bucketAt t length ≤ r.newest then
      some (m.item (bucketAt t length)) else none) ∧
    (∀ op, (r.perform op).1 = (m.perform op).1) ∧
    (∀ x t, bucketAt t length ≤ r.newest → r.perform (.push x t) = (false, r)) ∧
    (∀ x t, r.newest < bucketAt t length →
      let r' := (r.perform (.push x t)).2
      (r.perform (.push x t)).1 = true ∧ r'.newest = bucketAt t length ∧
      ∀ s, length ∣ s → bucketAt t length - latency * length ≤ s → s ≤ bucketAt t length →
        r'.get? s = if s = bucketAt t length then some x
          else if s ≤ r.newest then r.get? s else some ∅) ∧
    ∀ t f,
      let r' := (r.perform (.edit t f)).2
      (r.perform (.edit t f)).1 = (r.get? t).isSome ∧ r'.newest = r.newest ∧
      ∀ u, r'.get? u =
        if bucketAt u length = bucketAt t length then (r.get? u).map f else r.get? u := by
  have h := shows_run (α := α) hl latency start ops
  have hlen : ((TimedMap.new latency length start : TimedMap α).run ops).length = length :=
    TimedMap.length_run _ ops
  have hlat : ((TimedMap.new latency length start : TimedMap α).run ops).latency = latency :=
    TimedMap.latency_run _ ops
  intro r m first
  have hcov : r.Covers length latency r.newest := by
    have := h.covers
    rw [hlen, hlat] at this
    exact this.newest_eq ▸ this
  have hnew : r.newest = m.newest := h.covers.newest_eq
  refine ⟨hnew, fun t => ?_, fun op => (h.perform op).1, fun x t ht => ?_, fun x t ht => ?_,
    fun t f => ⟨rfl, newest_modify r t f, fun u => ?_⟩⟩
  · rw [h.get?_eq, TimedMap.get?]
    simp only [TimedMap.Holds, hlen, hlat, first, hnew]
    rfl
  · simp only [Ring.perform]
    rw [push_eq_none (by rwa [hcov.length_eq])]
  · obtain ⟨r', hp, -, -, -, hn'⟩ :=
      exists_push hcov.sound (by rwa [hcov.length_eq] : r.newest < bucketAt t r.length) x
    have hstep : r.perform (.push x t) = (true, r') := by simp only [Ring.perform, hp]
    rw [hstep]
    refine ⟨rfl, by rw [hn', hcov.length_eq], fun s hs hfirst hlast => ?_⟩
    rw [get?_push hcov.sound hp, hcov.width_eq, hcov.length_eq, bucketAt_of_dvd hs, if_neg (by omega)]
    rcases lt_or_eq_of_le hlast with hlt | rfl
    · rw [if_pos hlt, if_neg hlt.ne]
    · rw [if_pos rfl, if_neg (by omega), if_neg (lt_irrefl _), if_pos rfl]
  · show (r.modify t f).get? u = _
    rw [get?_modify hcov.sound, hcov.length_eq]

/-- four buckets that go from before zero past it, and two of them are empty on the way -/
theorem run_shows_timedMap_across_zero :
    let ops : List (RingOp (List Nat)) := [.push [1] (-130), .edit (-121) (2 :: ·), .push [3] 10]
    let r := (new 3 60 (-250)).run ops
    r.get? (-121) = some [2, 1] ∧ r.get? (-61) = some ∅ ∧ r.get? 59 = some [3] ∧
      r.get? 60 = none ∧ r.perform (.push [4] 0) = (false, r) := by
  intro ops r
  obtain ⟨-, hget, -, hrefused, -⟩ := run_shows_timedMap (by decide : (0 : Int) < 60) 3 (-250) ops
  exact ⟨(hget _).trans (by decide), (hget _).trans (by decide), (hget _).trans (by decide),
    (hget _).trans (by decide), hrefused [4] 0 (by decide)⟩

end Ring

end EventBuckets
