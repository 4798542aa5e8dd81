import Mathlib
import EventBuckets.Window.Ring

/-!
# Rings seen through their look-up

A ring is a window on a map from bucket starts to buckets: every operation is described by what
`Ring.get?` finds afterwards, and two rings that find the same are equal.

* `Ring.Sound`            positive length, at least one slot, and the newest start on the grid;
* `Ring.Covers`           a sound ring with a given length, latency and newest start;
* `slot_eq_iff`           two buckets share a slot iff they are a multiple of the capacity apart;
* `get?_modify`, `get?_push`, `get?_roll`, `get?_mapTimed`, `get?_clear`, `get?_new`, `get?_reset`
                          what is found after each operation;
* `Ring.ext_get?`         the ring is determined by its window and what is found in it;
* `entries_eq`            going through the slots agrees with looking up.
-/

namespace EventBuckets

/-! ## the grid -/

/-- a bucket that starts by a time starts by the bucket of that time -/
theorem le_bucketAt {s t l : Int} (hl : 0 < l) (hs : l ∣ s) (h : s ≤ t) : s ≤ bucketAt t l := by
  obtain ⟨k, rfl⟩ := hs
  rw [bucketAt_eq_mul]
  refine mul_le_mul_of_nonneg_left ?_ hl.le
  rwa [Int.le_ediv_iff_mul_le hl, mul_comm]

theorem bucketAfter_bucketAt (t l : Int) : bucketAfter (bucketAt t l) l = bucketAfter t l := by
  unfold bucketAfter
  rw [bucketAt_bucketAt]

theorem bucketAt_mono {s t l : Int} (hl : 0 < l) (h : s ≤ t) : bucketAt s l ≤ bucketAt t l :=
  le_bucketAt hl (dvd_bucketAt s l) ((bucketAt_le s hl).trans h)

theorem bucketAt_le_of_lt {s t l : Int} (hl : 0 < l) (hs : l ∣ s) (h : t < s + l) :
    bucketAt t l ≤ s := by
  obtain ⟨k, rfl⟩ := hs
  rw [bucketAt_eq_mul]
  refine mul_le_mul_of_nonneg_left ?_ hl.le
  rw [← Int.lt_add_one_iff, Int.ediv_lt_iff_lt_mul hl]
  linarith

theorem bucketsBetween_mul {l : Int} (hl : 0 < l) (m n : Int) :
    bucketsBetween (l * m) (l * n) l = n - m := by
  unfold bucketsBetween
  rw [← mul_sub, Int.mul_tdiv_cancel_left _ (Int.ne_of_gt hl)]

namespace Ring

variable {α : Type}

/-- a ring whose window lies on the grid -/
structure Sound (r : Ring α) : Prop where
  pos : 0 < r.length
  room : 0 < r.capacity
  aligned : r.length ∣ r.newest

/-! ## slots -/

theorem slot_mul {r : Ring α} (h : r.Sound) (a : Int) :
    r.slot (r.length * a) = (a % r.capacity).toNat := by
  unfold slot slotOf
  rw [Int.mul_ediv_cancel_left _ (Int.ne_of_gt h.pos)]

theorem slot_lt_of_room {r : Ring α} (h : 0 < r.capacity) (s : Int) :
    r.slot s < r.slots.size := by
  have hc : (0 : Int) < r.capacity := by exact_mod_cast h
  have h₁ := Int.emod_lt_of_pos (s / r.length) hc
  have h₂ := Int.emod_nonneg (s / r.length) (Int.ne_of_gt hc)
  unfold slot slotOf
  unfold capacity at *
  omega

theorem slot_lt {r : Ring α} (h : r.Sound) (s : Int) : r.slot s < r.slots.size :=
  slot_lt_of_room h.room s

/-- two buckets share a slot iff they are a multiple of the capacity apart -/
theorem slot_eq_iff {r : Ring α} (h : r.Sound) (a b : Int) :
    r.slot (r.length * a) = r.slot (r.length * b) ↔ (r.capacity : Int) ∣ b - a := by
  have hc : (0 : Int) < r.capacity := by exact_mod_cast h.room
  have ha := Int.emod_nonneg a (Int.ne_of_gt hc)
  have hb := Int.emod_nonneg b (Int.ne_of_gt hc)
  rw [slot_mul h, slot_mul h, ← Int.modEq_iff_dvd]
  unfold Int.ModEq
  omega

theorem slot_ne {r : Ring α} (h : r.Sound) {a b : Int} (hab : a < b) (hb : b < a + r.capacity) :
    r.slot (r.length * a) ≠ r.slot (r.length * b) := by
  rw [Ne, slot_eq_iff h]
  intro hd
  have := Int.le_of_dvd (by omega) hd
  omega

/-! ## the window -/

theorem contains_iff {r : Ring α} {t : Int} :
    r.contains t = true ↔ r.oldest ≤ bucketAt t r.length ∧ bucketAt t r.length ≤ r.newest := by
  simp [contains]

theorem get?_bucketAt (r : Ring α) (t : Int) : r.get? (bucketAt t r.length) = r.get? t := by
  simp [get?, contains]

/-- the newest start as a multiple of the length, and with it the window -/
theorem Sound.exists_newest {r : Ring α} (h : r.Sound) :
    ∃ n, r.newest = r.length * n ∧ r.oldest = r.length * (n - (r.capacity - 1)) := by
  obtain ⟨n, hn⟩ := h.aligned
  refine ⟨n, hn, ?_⟩
  rw [oldest, hn]
  ring

/-- the bucket with number `a` is in the window iff `a` is among the last numbers -/
theorem contains_mul_iff {r : Ring α} (h : r.Sound) {n : Int} (hn : r.newest = r.length * n)
    (a : Int) : r.contains (r.length * a) = true ↔ n - (r.capacity - 1) ≤ a ∧ a ≤ n := by
  obtain ⟨m, hm, ho⟩ := h.exists_newest
  have : m = n := Int.eq_of_mul_eq_mul_left (Int.ne_of_gt h.pos) (hm.symm.trans hn)
  subst this
  rw [contains_iff, bucketAt_of_dvd ⟨a, rfl⟩, hn, ho, mul_le_mul_iff_right₀ h.pos,
    mul_le_mul_iff_right₀ h.pos]

theorem get?_mul {r : Ring α} (h : r.Sound) {n : Int} (hn : r.newest = r.length * n) (b : Int) :
    r.get? (r.length * b) =
      if n - (r.capacity - 1) ≤ b ∧ b ≤ n then r.slots[r.slot (r.length * b)]? else none := by
  unfold get?
  rw [bucketAt_of_dvd ⟨b, rfl⟩]
  simp only [contains_mul_iff h hn b]

theorem isSome_get? {r : Ring α} (h : r.Sound) (t : Int) : (r.get? t).isSome = r.contains t := by
  unfold get?
  split
  · simp [*, slot_lt h]
  · simp [*]

theorem exists_get? {r : Ring α} (h : r.Sound) {t : Int} (ht : r.contains t = true) :
    ∃ x, r.get? t = some x := by
  rw [← Option.isSome_iff_exists, isSome_get? h, ht]

/-! ## equality -/

/-- the number of the bucket in a slot, for the window of a ring -/
theorem exists_slot {r : Ring α} (h : r.Sound) {j : Nat} (hj : j < r.slots.size) :
    ∃ t, r.contains t = true ∧ r.slot (bucketAt t r.length) = j := by
  obtain ⟨n, hn, -⟩ := h.exists_newest
  have hc : (0 : Int) < r.capacity := by exact_mod_cast h.room
  have h₁ := Int.emod_nonneg (n - j) (Int.ne_of_gt hc)
  have h₂ := Int.emod_lt_of_pos (n - j) hc
  let a := n - (n - j) % r.capacity
  refine ⟨r.length * a, (contains_mul_iff h hn a).mpr ⟨by omega, by omega⟩, ?_⟩
  have ha : a % r.capacity = j := by
    have : a = j + r.capacity * ((n - j) / r.capacity) := by
      have := Int.mul_ediv_add_emod (n - j) r.capacity
      omega
    rw [this, Int.add_mul_emod_self_left]
    exact Int.emod_eq_of_lt (by omega) (by unfold capacity; omega)
  rw [bucketAt_of_dvd ⟨a, rfl⟩, slot_mul h, ha, Int.toNat_natCast]

/-- the window and what is found in it determine the ring -/
theorem ext_get? {r r' : Ring α} (h : r.Sound) (h' : r'.Sound) (hl : r.length = r'.length)
    (hc : r.capacity = r'.capacity) (hn : r.newest = r'.newest)
    (hg : ∀ t, r.contains t = true → r.get? t = r'.get? t) : r = r' := by
  obtain ⟨l, n, slots⟩ := r
  obtain ⟨l', n', slots'⟩ := r'
  obtain rfl : l = l' := hl
  obtain rfl : n = n' := hn
  have hsize : slots.size = slots'.size := hc
  congr 1
  apply Array.ext_getElem?
  intro j
  by_cases hj : j < slots.size
  · -- each slot is that of a bucket of the window, and is what is found there
    obtain ⟨t, ht, e⟩ := exists_slot h hj
    have ht' : contains ⟨l, n, slots'⟩ t = true := by
      rw [contains_iff] at ht ⊢
      simpa [oldest, capacity, ← hsize] using ht
    have e' : slot ⟨l, n, slots'⟩ (bucketAt t l) = j := by
      simpa [slot, capacity, ← hsize] using e
    have := hg t ht
    unfold get? at this
    rw [if_pos ht, if_pos ht'] at this
    rwa [e, e'] at this
  · rw [Array.getElem?_eq_none (Nat.not_lt.mp hj),
      Array.getElem?_eq_none (hsize ▸ Nat.not_lt.mp hj)]

/-! ## changing a bucket -/

theorem Sound.modify {r : Ring α} (h : r.Sound) (t : Int) (f : α → α) : (r.modify t f).Sound := by
  refine ⟨?_, by simpa using h.room, ?_⟩
  · unfold Ring.modify; split <;> exact h.pos
  · rw [newest_modify]; unfold Ring.modify; split <;> exact h.aligned

@[simp] theorem length_modify (r : Ring α) (t : Int) (f : α → α) :
    (r.modify t f).length = r.length := by
  unfold modify
  split <;> rfl

@[simp] theorem oldest_modify (r : Ring α) (t : Int) (f : α → α) :
    (r.modify t f).oldest = r.oldest := by
  simp [oldest]

@[simp] theorem contains_modify (r : Ring α) (t u : Int) (f : α → α) :
    (r.modify t f).contains u = r.contains u := by
  simp [contains]

@[simp] theorem slot_modify (r : Ring α) (t : Int) (f : α → α) (s : Int) :
    (r.modify t f).slot s = r.slot s := by
  simp [slot]

/-- two buckets of the window share a slot only if they are the same -/
theorem slot_inj {r : Ring α} (h : r.Sound) {t u : Int} (ht : r.contains t = true)
    (hu : r.contains u = true)
    (e : r.slot (bucketAt t r.length) = r.slot (bucketAt u r.length)) :
    bucketAt t r.length = bucketAt u r.length := by
  obtain ⟨n, hn, -⟩ := h.exists_newest
  obtain ⟨a, ha⟩ := dvd_bucketAt t r.length
  obtain ⟨b, hb⟩ := dvd_bucketAt u r.length
  have ht' : r.contains (r.length * a) = true := by rw [← ha]; simpa [contains] using ht
  have hu' : r.contains (r.length * b) = true := by rw [← hb]; simpa [contains] using hu
  rw [contains_mul_iff h hn] at ht' hu'
  rw [ha, hb] at e ⊢
  rcases lt_trichotomy a b with hab | rfl | hab
  · exact absurd e (slot_ne h hab (by omega))
  · rfl
  · exact absurd e.symm (slot_ne h hab (by omega))

/-- where no two buckets of the window share a slot, an edit changes the bucket of its time only -/
theorem get?_modify_of_inj {r : Ring α}
    (hinj : ∀ t u, r.contains t = true → r.contains u = true →
      r.slot (bucketAt t r.length) = r.slot (bucketAt u r.length) →
      bucketAt t r.length = bucketAt u r.length) (u t : Int) (f : α → α) :
    (r.modify u f).get? t =
      if bucketAt t r.length = bucketAt u r.length then (r.get? t).map f else r.get? t := by
  unfold get?
  simp only [contains_modify, length_modify, slot_modify]
  by_cases ht : r.contains t = true
  · simp only [ht, if_true]
    unfold modify
    by_cases hu : r.contains u = true
    · simp only [hu, if_true, Array.getElem?_modify]
      by_cases e : bucketAt t r.length = bucketAt u r.length
      · rw [if_pos (by rw [e]), if_pos e]
      · rw [if_neg fun e' => e (hinj u t hu ht e').symm, if_neg e]
    · have e : bucketAt t r.length ≠ bucketAt u r.length := fun e =>
        hu (by rw [contains_iff] at ht ⊢; rwa [← e])
      rw [if_neg hu, if_neg e]
  · simp [ht]

theorem get?_modify {r : Ring α} (h : r.Sound) (u t : Int) (f : α → α) :
    (r.modify u f).get? t =
      if bucketAt t r.length = bucketAt u r.length then (r.get? t).map f else r.get? t :=
  get?_modify_of_inj (fun _ _ => slot_inj h) u t f

theorem modify_id {r : Ring α} (h : r.Sound) (t : Int) : (r.modify t fun x => x) = r := by
  apply ext_get? (h.modify t _) h (by simp) (by simp) (by simp)
  intro u _
  rw [get?_modify h, Option.map_id']
  split <;> rfl

/-! ## emptying ahead -/

theorem size_clearAhead [EmptyCollection α] (r : Ring α) (n : Nat) :
    (r.clearAhead n).size = r.slots.size := by
  unfold clearAhead
  induction n with
  | zero => rfl
  | succ n ih => simp [List.range_succ, List.foldl_append, ih]

theorem getElem?_clearAhead [EmptyCollection α] (r : Ring α) (n j : Nat) :
    (r.clearAhead n)[j]? =
      if (∃ k < n, r.slot (r.newest + (k + 1 : Nat) * r.length) = j) ∧ j < r.slots.size then some ∅
      else r.slots[j]? := by
  induction n with
  | zero => simp [clearAhead]
  | succ n ih =>
    have step : r.clearAhead (n + 1) =
        (r.clearAhead n).setIfInBounds (r.slot (r.newest + (n + 1 : Nat) * r.length)) ∅ := by
      simp [clearAhead, List.range_succ, List.foldl_append]
    rw [step, Array.getElem?_setIfInBounds, size_clearAhead, ih]
    by_cases hj : r.slot (r.newest + (n + 1 : Nat) * r.length) = j
    · subst hj
      rw [if_pos rfl]
      by_cases hs : r.slot (r.newest + (n + 1 : Nat) * r.length) < r.slots.size
      · rw [if_pos hs, if_pos ⟨⟨n, Nat.lt_succ_self n, rfl⟩, hs⟩]
      · rw [if_neg hs, if_neg fun h => hs h.2]
        simp only [Array.getElem?_eq_none_iff.mpr (Nat.not_lt.mp hs)]
    · rw [if_neg hj]
      congr 1
      simp only [Nat.lt_succ_iff_lt_or_eq, eq_iff_iff, and_congr_left_iff]
      intro _
      constructor
      · rintro ⟨k, hk, e⟩
        exact ⟨k, Or.inl hk, e⟩
      · rintro ⟨k, hk | rfl, e⟩
        · exact ⟨k, hk, e⟩
        · exact absurd e hj

/-! ## a new bucket -/

theorem skippedBefore_mul {r : Ring α} (h : r.Sound) {n a : Int} (hn : r.newest = r.length * n)
    (hna : n < a) : r.skippedBefore (r.length * a) = min (a - n - 1).toNat r.capacity := by
  have steps : bucketsBetween r.newest (r.length * a) r.length = a - n := by
    rw [hn, bucketsBetween_mul h.pos]
  unfold skippedBefore
  simp only [steps]
  rw [if_neg (by omega)]

theorem newest_add {r : Ring α} {n : Int} (hn : r.newest = r.length * n) (k : Nat) :
    r.newest + (k + 1 : Nat) * r.length = r.length * (n + k + 1) := by
  rw [hn]
  push_cast
  ring

/-- the slots of all buckets skipped over are emptied, also where they are more than the slots -/
theorem exists_cleared {r : Ring α} (h : r.Sound) {n a b : Int} (hn : r.newest = r.length * n)
    (hb : n < b) (hab : b < a) :
    ∃ k < r.skippedBefore (r.length * a),
      r.slot (r.newest + (k + 1 : Nat) * r.length) = r.slot (r.length * b) := by
  have hc : (0 : Int) < r.capacity := by exact_mod_cast h.room
  -- the first bucket after the newest one that has the slot
  let k := ((b - n - 1) % r.capacity).toNat
  have hk : (k : Int) = (b - n - 1) % r.capacity :=
    Int.toNat_of_nonneg (Int.emod_nonneg _ (Int.ne_of_gt hc))
  have hk₁ : (k : Int) < r.capacity := hk ▸ Int.emod_lt_of_pos _ hc
  have hq : 0 ≤ (r.capacity : Int) * ((b - n - 1) / r.capacity) :=
    Int.mul_nonneg hc.le (Int.ediv_nonneg (by omega) hc.le)
  have he := Int.mul_ediv_add_emod (b - n - 1) r.capacity
  refine ⟨k, ?_, ?_⟩
  · rw [skippedBefore_mul h hn (by omega)]
    omega
  · rw [newest_add hn, slot_eq_iff h]
    exact ⟨(b - n - 1) / r.capacity, by omega⟩

/-- no bucket that stays in the window is emptied -/
theorem not_cleared {r : Ring α} (h : r.Sound) {n a b : Int} (hn : r.newest = r.length * n)
    (hna : n < a) (hb : b ≤ n) (hab : a - r.capacity < b) :
    ¬∃ k < r.skippedBefore (r.length * a),
      r.slot (r.newest + (k + 1 : Nat) * r.length) = r.slot (r.length * b) := by
  rintro ⟨k, hk, e⟩
  rw [skippedBefore_mul h hn hna] at hk
  rw [newest_add hn] at e
  exact slot_ne h (by omega) (by omega) e.symm

section push
variable [EmptyCollection α]

/-- a bucket that is not after the newest one is refused -/
theorem push_eq_none {r : Ring α} {t : Int} (ht : bucketAt t r.length ≤ r.newest) (x : α) :
    r.push x t = none := by
  simp [push, ht]

theorem exists_push {r : Ring α} (h : r.Sound) {t : Int} (ht : r.newest < bucketAt t r.length)
    (x : α) : ∃ r', r.push x t = some r' ∧ r'.Sound ∧ r'.length = r.length ∧
      r'.capacity = r.capacity ∧ r'.newest = bucketAt t r.length := by
  have hsize : ((r.clearAhead (r.skippedBefore (bucketAt t r.length))).setIfInBounds
      (r.slot (bucketAt t r.length)) x).size = r.slots.size := by
    rw [Array.size_setIfInBounds, size_clearAhead]
  refine ⟨_, if_neg (by simpa using ht), ⟨h.pos, ?_, dvd_bucketAt _ _⟩, rfl, hsize, rfl⟩
  show 0 < Array.size _
  rw [hsize]
  exact h.room

/-- after a new bucket: the bucket itself, empty ones for those skipped over, and the others of the
window as they were -/
theorem get?_push {r r' : Ring α} (h : r.Sound) {t : Int} {x : α} (hp : r.push x t = some r')
    (u : Int) :
    r'.get? u =
      if bucketAt u r.length < bucketAt t r.length - (r.capacity - 1) * r.length then none
      else if bucketAt u r.length ≤ r.newest then r.get? u
      else if bucketAt u r.length < bucketAt t r.length then some ∅
      else if bucketAt u r.length = bucketAt t r.length then some x
      else none := by
  have ht : r.newest < bucketAt t r.length := by
    by_contra hle
    rw [push_eq_none (Int.not_lt.mp hle)] at hp
    cases hp
  obtain ⟨r'', hp', h', hlen, hcap, hnew⟩ := exists_push h ht x
  obtain rfl : r'' = r' := Option.some.inj (hp'.symm.trans hp)
  obtain ⟨n, hn, ho⟩ := h.exists_newest
  obtain ⟨a, ha⟩ := dvd_bucketAt t r.length
  obtain ⟨b, hb⟩ := dvd_bucketAt u r.length
  have hna : n < a := by
    rw [hn, ha] at ht
    exact lt_of_mul_lt_mul_left ht h.pos.le
  have hslots : r''.slots = (r.clearAhead (r.skippedBefore (r.length * a))).setIfInBounds
      (r.slot (r.length * a)) x := by
    unfold push at hp
    rw [if_neg (by simpa using ht), ha] at hp
    exact (congrArg Ring.slots (Option.some.inj hp)).symm
  have hslot : r''.slot (r.length * b) = r.slot (r.length * b) := by
    simp [slot, hlen, hcap]
  rw [← get?_bucketAt r'' u, ← get?_bucketAt r u, hlen, ha, hb, hn,
    show r.length * a - (r.capacity - 1) * r.length = r.length * (a - (r.capacity - 1)) by ring]
  simp only [mul_lt_mul_iff_right₀ h.pos, mul_le_mul_iff_right₀ h.pos,
    Int.mul_eq_mul_left_iff (Int.ne_of_gt h.pos)]
  have hlook := get?_mul h hn b
  have hlook' := get?_mul h' (by rw [hnew, ha, hlen]) b
  rw [hlen, hcap, hslot] at hlook'
  rw [hlook', hlook, hslots, Array.getElem?_setIfInBounds, getElem?_clearAhead, size_clearAhead]
  by_cases hout : b < a - (r.capacity - 1)
  · rw [if_pos hout, if_neg (by omega)]
  rw [if_neg hout]
  rcases lt_trichotomy b a with hba | rfl | hba
  · rw [if_pos (by omega), if_neg (slot_ne h hba (by omega)).symm]
    by_cases hbn : b ≤ n
    · have hkeep := not_cleared h hn hna hbn (by omega)
      rw [if_pos hbn, if_neg (mt And.left hkeep), if_pos ⟨by omega, hbn⟩]
    · rw [if_neg hbn, if_pos hba,
        if_pos ⟨exists_cleared h hn (Int.not_le.mp hbn) hba, slot_lt h _⟩]
  · rw [if_pos (by omega), if_pos rfl, if_pos (slot_lt h _), if_neg (by omega),
      if_neg (lt_irrefl b), if_pos rfl]
  · rw [if_neg (by omega), if_neg (by omega), if_neg (by omega), if_neg (by omega)]

/-! ## rolling forward -/

/-- makes the bucket of a later time the newest one, empty; a time before that changes nothing -/
def roll (r : Ring α) (time : Int) : Ring α := (r.push ∅ time).getD r

theorem roll_of_le {r : Ring α} {t : Int} (ht : bucketAt t r.length ≤ r.newest) :
    r.roll t = r := by
  rw [roll, push_eq_none ht]
  rfl

theorem push_eq_some_roll {r : Ring α} (h : r.Sound) {t : Int}
    (ht : r.newest < bucketAt t r.length) : r.push ∅ t = some (r.roll t) := by
  obtain ⟨r', hp, -⟩ := exists_push h ht ∅
  rw [roll, hp]
  rfl

theorem roll_frame {r : Ring α} (h : r.Sound) (t : Int) :
    (r.roll t).Sound ∧ (r.roll t).length = r.length ∧ (r.roll t).capacity = r.capacity ∧
      (r.roll t).newest = max r.newest (bucketAt t r.length) := by
  rcases le_or_gt (bucketAt t r.length) r.newest with ht | ht
  · rw [roll_of_le ht, max_eq_left ht]
    exact ⟨h, rfl, rfl, rfl⟩
  · obtain ⟨r', hp, h', hl, hc, hn⟩ := exists_push h ht ∅
    obtain rfl : r' = r.roll t := Option.some.inj (hp.symm.trans (push_eq_some_roll h ht))
    rw [max_eq_right ht.le]
    exact ⟨h', hl, hc, hn⟩

theorem Sound.roll {r : Ring α} (h : r.Sound) (t : Int) : (r.roll t).Sound := (roll_frame h t).1

theorem length_roll {r : Ring α} (h : r.Sound) (t : Int) : (r.roll t).length = r.length :=
  (roll_frame h t).2.1

theorem capacity_roll {r : Ring α} (h : r.Sound) (t : Int) : (r.roll t).capacity = r.capacity :=
  (roll_frame h t).2.2.1

theorem newest_roll {r : Ring α} (h : r.Sound) (t : Int) :
    (r.roll t).newest = max r.newest (bucketAt t r.length) :=
  (roll_frame h t).2.2.2

theorem contains_roll {r : Ring α} (h : r.Sound) (t u : Int) :
    (r.roll t).contains u = true ↔
      max r.newest (bucketAt t r.length) - (r.capacity - 1) * r.length ≤ bucketAt u r.length ∧
        bucketAt u r.length ≤ max r.newest (bucketAt t r.length) := by
  rw [contains_iff, oldest, newest_roll h, length_roll h, capacity_roll h]

/-- in the window after rolling, a bucket is the old one or, where it is a new one, empty -/
theorem get?_roll {r : Ring α} (h : r.Sound) (t u : Int) (hu : (r.roll t).contains u = true) :
    (r.roll t).get? u = if bucketAt u r.length ≤ r.newest then r.get? u else some ∅ := by
  rw [contains_roll h] at hu
  rcases le_or_gt (bucketAt t r.length) r.newest with ht | ht
  · rw [max_eq_left ht] at hu
    rw [roll_of_le ht, if_pos hu.2]
  · rw [max_eq_right ht.le] at hu
    rw [get?_push h (push_eq_some_roll h ht), if_neg (Int.not_lt.mpr hu.1)]
    split
    · rfl
    · rcases lt_or_eq_of_le hu.2 with hlt | heq
      · rw [if_pos hlt]
      · rw [if_neg (by omega), if_pos heq]

end push

/-- of two steps forward only the later one counts -/
theorem roll_roll [EmptyCollection α] {r : Ring α} (h : r.Sound) {s t : Int}
    (hst : bucketAt s r.length ≤ bucketAt t r.length) : (r.roll s).roll t = r.roll t := by
  have hn : ((r.roll s).roll t).newest = (r.roll t).newest := by
    rw [newest_roll (h.roll s), newest_roll h, newest_roll h, length_roll h]
    omega
  refine ext_get? ((h.roll s).roll t) (h.roll t) ?_ ?_ hn ?_
  · rw [length_roll (h.roll s), length_roll h, length_roll h]
  · rw [capacity_roll (h.roll s), capacity_roll h, capacity_roll h]
  intro u hu
  have hu' : (r.roll t).contains u = true := by
    rw [contains_roll (h.roll s), newest_roll h, length_roll h, capacity_roll h] at hu
    rw [contains_roll h]
    omega
  rw [get?_roll (h.roll s) t u hu, get?_roll h t u hu', length_roll h, newest_roll h]
  -- a bucket was there before both steps, is opened by the first one, or by the second one
  by_cases hold : bucketAt u r.length ≤ r.newest
  · rw [if_pos (by omega), if_pos hold]
    have hus : (r.roll s).contains u = true := by
      rw [contains_roll h] at hu' ⊢
      have := h.pos
      omega
    rw [get?_roll h s u hus, if_pos hold]
  · rw [if_neg hold]
    by_cases hmid : bucketAt u r.length ≤ max r.newest (bucketAt s r.length)
    · have hus : (r.roll s).contains u = true := by
        rw [contains_roll h] at hu' ⊢
        omega
      rw [if_pos hmid, get?_roll h s u hus, if_neg hold]
    · rw [if_neg hmid]

/-! ## all buckets at once -/

/-- a ring with the slots of another one, each changed by itself, finds the changed buckets -/
theorem get?_of_slots {β : Type} (r : Ring α) (r' : Ring β) (f : Int → α → β)
    (hl : r'.length = r.length) (hn : r'.newest = r.newest) (hc : r'.capacity = r.capacity)
    {t : Int} (hs : r.contains t = true → r'.slots[r.slot (bucketAt t r.length)]? =
      (r.slots[r.slot (bucketAt t r.length)]?).map (f (bucketAt t r.length))) :
    r'.get? t = (r.get? t).map (f (bucketAt t r.length)) := by
  have hcont : r'.contains t = r.contains t := by simp [contains, oldest, hl, hn, hc]
  have hslot (s : Int) : r'.slot s = r.slot s := by simp [slot, hl, hc]
  unfold get?
  rw [hcont, hslot, hl]
  by_cases ht : r.contains t = true
  · rw [if_pos ht, if_pos ht, hs ht]
  · rw [if_neg ht, if_neg ht]
    rfl

theorem get?_clear [EmptyCollection α] (r : Ring α) (t : Int) :
    r.clear.get? t = (r.get? t).map fun _ => ∅ := by
  refine get?_of_slots r r.clear (fun _ _ => ∅) rfl rfl (capacity_clear r) ?_
  intro _
  simp only [clear, Array.getElem?_map]

/-- the start of the bucket in the slot of a bucket of the window -/
theorem startOfSlot_slot {r : Ring α} (h : r.Sound) {t : Int} (ht : r.contains t = true) :
    r.startOfSlot (r.slot (bucketAt t r.length)) = bucketAt t r.length := by
  obtain ⟨n, hn, ho⟩ := h.exists_newest
  have hc : (0 : Int) < r.capacity := by exact_mod_cast h.room
  obtain ⟨b, hb⟩ := dvd_bucketAt t r.length
  have hw : n - (r.capacity - 1) ≤ b ∧ b ≤ n := by
    rw [← contains_mul_iff h hn, ← hb]
    simpa [contains] using ht
  have slot_cast (a : Int) : (r.slot (r.length * a) : Int) = a % r.capacity := by
    rw [slot_mul h, Int.toNat_of_nonneg (Int.emod_nonneg _ (Int.ne_of_gt hc))]
  unfold startOfSlot
  rw [hb, ho, slot_cast, slot_cast, ← Int.sub_emod, Int.emod_eq_of_lt (by omega) (by omega)]
  ring

@[simp] theorem contains_mapTimed (r : Ring α) (f : Int → α → α) (t : Int) :
    (r.mapTimed f).contains t = r.contains t := by
  unfold contains oldest
  rw [capacity_mapTimed]
  rfl

theorem get?_mapTimed {r : Ring α} (h : r.Sound) (f : Int → α → α) (t : Int) :
    (r.mapTimed f).get? t = (r.get? t).map (f (bucketAt t r.length)) := by
  refine get?_of_slots r (r.mapTimed f) f rfl rfl (capacity_mapTimed r f) ?_
  intro ht
  simp only [mapTimed, Array.getElem?_mapIdx, startOfSlot_slot h ht]

theorem Sound.mapTimed {r : Ring α} (h : r.Sound) (f : Int → α → α) : (r.mapTimed f).Sound :=
  ⟨h.pos, by simpa using h.room, h.aligned⟩

theorem Sound.clear [EmptyCollection α] {r : Ring α} (h : r.Sound) : r.clear.Sound :=
  ⟨h.pos, by simpa using h.room, h.aligned⟩

theorem Sound.reset [EmptyCollection α] {r : Ring α} (h : r.Sound) (t : Int) : (r.reset t).Sound :=
  ⟨h.pos, by simpa [capacity, Ring.reset] using h.clear.room, dvd_bucketAt t r.length⟩

theorem sound_new [EmptyCollection α] {length : Int} (hl : 0 < length) (latency : Nat) (t : Int) :
    (new latency length t : Ring α).Sound :=
  ⟨hl, by simp, dvd_bucketAt t length⟩

theorem get?_new [EmptyCollection α] {length : Int} (hl : 0 < length) (latency : Nat) (t u : Int)
    (hu : (new latency length t : Ring α).contains u = true) :
    (new latency length t : Ring α).get? u = some ∅ := by
  have hs := slot_lt (sound_new (α := α) hl latency t)
    (bucketAt u (new latency length t : Ring α).length)
  unfold get?
  rw [if_pos hu, Array.getElem?_eq_getElem hs]
  simp [new]

theorem get?_reset [EmptyCollection α] {r : Ring α} (h : r.Sound) (t u : Int)
    (hu : (r.reset t).contains u = true) : (r.reset t).get? u = some ∅ := by
  have hs := slot_lt (h.reset t) (bucketAt u (r.reset t).length)
  unfold get?
  rw [if_pos hu, Array.getElem?_eq_getElem hs]
  simp [reset, clear]

/-- the bucket at each place, counted from the oldest one -/
theorem getElem?_entries {r : Ring α} (h : r.Sound) {k : Nat} (hk : k < r.capacity) :
    r.entries[k]? = (r.get? (r.oldest + k * r.length)).map (r.oldest + k * r.length, ·) := by
  obtain ⟨n, hn, ho⟩ := h.exists_newest
  have hc : (0 : Int) < r.capacity := by exact_mod_cast h.room
  have hkc : (k : Int) < r.capacity := by exact_mod_cast hk
  have hkth : r.oldest + k * r.length = r.length * (n - (r.capacity - 1) + k) := by
    rw [ho]
    ring
  have hget : r.get? (r.oldest + k * r.length) = r.slots[r.slot (r.oldest + k * r.length)]? := by
    unfold get?
    rw [hkth, if_pos ((contains_mul_iff h hn _).mpr ⟨by omega, by omega⟩),
      bucketAt_of_dvd ⟨_, rfl⟩]
  have hfirst : r.slot r.oldest < r.slots.size := slot_lt h _
  have hlast : r.slot (r.oldest + k * r.length) < r.slots.size := slot_lt h _
  have hrot : (r.slot (r.oldest + k * r.length) : Int) = (r.slot r.oldest + k) % r.capacity := by
    rw [hkth, ho, slot_mul h, slot_mul h, Int.toNat_of_nonneg (Int.emod_nonneg _ (Int.ne_of_gt hc)),
      Int.toNat_of_nonneg (Int.emod_nonneg _ (Int.ne_of_gt hc)), Int.emod_add_emod]
  have hrotated : (r.slots.toList.drop (r.slot r.oldest) ++ r.slots.toList.take (r.slot r.oldest))[k]?
      = r.slots[r.slot (r.oldest + k * r.length)]? := by
    rw [List.getElem?_append, List.length_drop, Array.length_toList]
    unfold capacity at hkc hrot hk
    by_cases hwrap : k < r.slots.size - r.slot r.oldest
    · have e : r.slot (r.oldest + k * r.length) = r.slot r.oldest + k := by
        rw [Int.emod_eq_of_lt (by omega) (by omega)] at hrot
        exact_mod_cast hrot
      rw [if_pos hwrap, e, List.getElem?_drop, Array.getElem?_toList]
    · have e : r.slot (r.oldest + k * r.length) = k - (r.slots.size - r.slot r.oldest) := by
        rw [← Int.sub_emod_right, Int.emod_eq_of_lt (by omega) (by omega)] at hrot
        omega
      rw [if_neg hwrap, e, List.getElem?_take_of_lt (by omega), Array.getElem?_toList]
  rw [hget, ← hrotated]
  unfold entries
  rw [List.getElem?_mapIdx]

/-- going through the slots agrees with looking up each start -/
theorem entries_eq {r : Ring α} (h : r.Sound) :
    r.entries = r.starts.filterMap fun s => (r.get? s).map (s, ·) := by
  have some_of (k : Nat) (hk : k < r.capacity) :
      ((r.get? (r.oldest + k * r.length)).map (r.oldest + k * r.length, ·)).isSome := by
    rw [← getElem?_entries h hk]
    simpa using hk
  have step (n : Nat) (hn : n ≤ r.capacity) : r.entries.take n =
      (List.range n).filterMap fun (k : Nat) =>
        (r.get? (r.oldest + k * r.length)).map (r.oldest + k * r.length, ·) := by
    induction n with
    | zero => rfl
    | succ n ih =>
      rw [List.take_add_one, ih (Nat.le_of_succ_le hn), List.range_succ, List.filterMap_append,
        getElem?_entries h hn]
      rfl
  have all := step r.capacity le_rfl
  rw [List.take_of_length_le (by simp)] at all
  rw [all, starts, List.filterMap_map]
  rfl

/-! ## the window of a ring -/

/-- a sound ring of buckets of the given length: `latency` of them and the one at `start` -/
structure Covers (r : Ring α) (length : Int) (latency : Nat) (start : Int) : Prop where
  sound : r.Sound
  length_eq : r.length = length
  capacity_eq : r.capacity = latency + 1
  newest_eq : r.newest = start

namespace Covers
variable {r : Ring α} {length start : Int} {latency : Nat}

theorem pos (h : r.Covers length latency start) : 0 < length := h.length_eq ▸ h.sound.pos

theorem aligned (h : r.Covers length latency start) : length ∣ start :=
  h.length_eq ▸ h.newest_eq ▸ h.sound.aligned

theorem width_eq (h : r.Covers length latency start) :
    ((r.capacity : Int) - 1) * r.length = latency * length := by
  rw [h.capacity_eq, h.length_eq]
  push_cast
  ring

theorem oldest_eq (h : r.Covers length latency start) : r.oldest = start - latency * length := by
  rw [oldest, h.newest_eq, h.width_eq]

theorem contains_iff (h : r.Covers length latency start) {t : Int} :
    r.contains t = true ↔
      start - latency * length ≤ bucketAt t length ∧ bucketAt t length ≤ start := by
  rw [Ring.contains_iff, h.oldest_eq, h.newest_eq, h.length_eq]

theorem ext {r' : Ring α} (h : r.Covers length latency start) (h' : r'.Covers length latency start)
    (hg : ∀ t, r.contains t = true → r.get? t = r'.get? t) : r = r' :=
  ext_get? h.sound h'.sound (h.length_eq.trans h'.length_eq.symm)
    (h.capacity_eq.trans h'.capacity_eq.symm) (h.newest_eq.trans h'.newest_eq.symm) hg

theorem modify (h : r.Covers length latency start) (t : Int) (f : α → α) :
    (r.modify t f).Covers length latency start :=
  ⟨h.sound.modify t f, by rw [length_modify, h.length_eq], by rw [capacity_modify, h.capacity_eq],
    by rw [newest_modify, h.newest_eq]⟩

theorem mapTimed (h : r.Covers length latency start) (f : Int → α → α) :
    (r.mapTimed f).Covers length latency start :=
  ⟨h.sound.mapTimed f, h.length_eq, by rw [capacity_mapTimed, h.capacity_eq], h.newest_eq⟩

variable [EmptyCollection α]

theorem roll (h : r.Covers length latency start) (t : Int) :
    (r.roll t).Covers length latency (max start (bucketAt t length)) :=
  ⟨h.sound.roll t, by rw [length_roll h.sound, h.length_eq],
    by rw [capacity_roll h.sound, h.capacity_eq],
    by rw [newest_roll h.sound, h.newest_eq, h.length_eq]⟩

theorem clear (h : r.Covers length latency start) : r.clear.Covers length latency start :=
  ⟨h.sound.clear, h.length_eq, by rw [capacity_clear, h.capacity_eq], h.newest_eq⟩

theorem reset (h : r.Covers length latency start) (t : Int) :
    (r.reset t).Covers length latency (bucketAt t length) :=
  ⟨h.sound.reset t, h.length_eq, h.clear.capacity_eq, by rw [← h.length_eq]; rfl⟩

theorem new (hl : 0 < length) (t : Int) :
    (Ring.new latency length t : Ring α).Covers length latency (bucketAt t length) :=
  ⟨sound_new hl latency t, rfl, capacity_new latency length t, rfl⟩

end Covers

end Ring

end EventBuckets
