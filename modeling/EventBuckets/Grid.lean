/-!
# Bucket arithmetic

Event time is a whole number of seconds since the epoch.  Buckets are aligned to multiples of
their length, so a record lands in the same bucket whenever gathering began.

* `bucketAt t l`     the start of the bucket of length `l` that holds `t`;
* `bucketAfter t l`  the first time after that bucket;
* `bucketsBetween`   how many whole buckets lie between two times.

`bucketAt_le`, `lt_bucketAfter` and `bucketAt_eq_of_mem` are the laws of the grid; negative
times obey them too.
-/

namespace EventBuckets

/-- the start of the bucket of length `length` that holds `time` -/
def bucketAt (time length : Int) : Int := time - time % length

/-- the first time after the bucket that holds `time` -/
def bucketAfter (time length : Int) : Int := bucketAt time length + length

/-- the number of whole buckets between two times, rounded towards zero -/
def bucketsBetween (first last length : Int) : Int := (last - first).tdiv length

/-! ## the grid -/

theorem bucketAt_eq_mul (t l : Int) : bucketAt t l = l * (t / l) := by
  have := Int.mul_ediv_add_emod t l
  unfold bucketAt
  omega

theorem bucketAt_le (t : Int) {l : Int} (hl : 0 < l) : bucketAt t l ≤ t := by
  have := Int.emod_nonneg t (Int.ne_of_gt hl)
  unfold bucketAt
  omega

theorem lt_bucketAfter (t : Int) {l : Int} (hl : 0 < l) : t < bucketAfter t l := by
  have := Int.emod_lt_of_pos t hl
  unfold bucketAfter bucketAt
  omega

theorem dvd_bucketAt (t l : Int) : l ∣ bucketAt t l :=
  ⟨t / l, bucketAt_eq_mul t l⟩

/-- a multiple of the length is the start of the bucket of each time it reaches -/
theorem bucketAt_eq_of_mem {s t l : Int} (hs : l ∣ s) (h₁ : s ≤ t) (h₂ : t < s + l) :
    bucketAt t l = s := by
  obtain ⟨k, rfl⟩ := hs
  have hl : 0 < l := by omega
  have : t / l = k := by
    have e : t = (t - l * k) + l * k := by omega
    rw [e, Int.add_mul_ediv_left _ _ (Int.ne_of_gt hl),
      Int.ediv_eq_zero_of_lt (by omega) (by omega)]
    omega
  rw [bucketAt_eq_mul, this]

theorem bucketAt_of_dvd {t l : Int} (h : l ∣ t) : bucketAt t l = t := by
  simp [bucketAt, Int.emod_eq_zero_of_dvd h]

@[simp] theorem bucketAt_bucketAt (t l : Int) :
    bucketAt (bucketAt t l) l = bucketAt t l :=
  bucketAt_of_dvd (dvd_bucketAt t l)

end EventBuckets
