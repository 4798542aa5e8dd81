import EventBuckets.Proofs.OpenSpans

/-!
# The lengths of a valid configuration

A configuration is checked by its seconds as they are written, and buckets are laid out by the same
seconds read as signed numbers.  The two agree below `2 ^ 63`.  A length from there on passes every
check, and as a signed number it is negative.

* `HoldsTimes`         every time lies in its bucket of that length;
* `MadeOf`             a span is made of whole buckets;
* `Config.Usable`      what laying out buckets asks of the lengths;
* `secs_bucket_lt`     a bucket length that has a span is below `2 ^ 63`, whatever the span;
* `usable_iff_below`   a valid configuration is usable just if its lengths are below `2 ^ 63`; a
                       span below is made of buckets whatever the others are, and no bucket of a
                       length that is not below holds its times.
-/

namespace EventBuckets

/-! ## lengths that lay out buckets -/

/-- every time lies in its bucket of the length -/
def HoldsTimes (length : Int) : Prop := ∀ t, bucketAt t length ≤ t ∧ t < bucketAfter t length

/-- a span is a longer multiple of a bucket, and whole buckets lie in it -/
structure MadeOf (bucket span : Int) : Prop where
  longer : bucket < span
  multiple : bucket ∣ span
  nested : ∀ t, bucketAt (bucketAt t bucket) span = bucketAt t span

theorem holdsTimes_of_pos {l : Int} (hl : 0 < l) : HoldsTimes l := fun t =>
  ⟨bucketAt_le t hl, lt_bucketAfter t hl⟩

/-- the bucket of time zero ends at its length -/
theorem HoldsTimes.pos {l : Int} (h : HoldsTimes l) : 0 < l := by
  have hzero : 0 < bucketAfter 0 l := (h 0).2
  unfold bucketAfter bucketAt at hzero
  rwa [Int.zero_emod, sub_zero, zero_add] at hzero

/-- a bucket of negative length is over before it begins -/
theorem bucketAfter_lt_of_neg {l : Int} (hl : l < 0) (t : Int) : bucketAfter t l < t := by
  have := Int.emod_nonneg t (Int.ne_of_lt hl)
  unfold bucketAfter bucketAt
  omega

theorem madeOf_of_dvd {l s : Int} (hl : 0 < l) (hlt : l < s) (hd : l ∣ s) : MadeOf l s :=
  ⟨hlt, hd, bucketAt_bucketAt_of_dvd hl (hl.trans hlt) hd⟩

theorem Duration.seconds_neg {d : Duration} (h : 2 ^ 63 ≤ d.secs.toNat) : d.seconds < 0 := by
  unfold Duration.seconds
  rw [Int64.toInt, UInt64.toBitVec_toInt64, BitVec.toInt_neg_iff]
  show 2 ^ 64 ≤ 2 * d.secs.toNat
  omega

/-! ## those of a configuration -/

namespace Config
variable {c : Config} {kind : SeriesKind}

def lengths (c : Config) : List Duration := c.bucketLength :: c.multiBucketLengths

/-- the bucket length is positive, spans are made of buckets, and every time lies in its bucket of
each length -/
structure Usable (c : Config) : Prop where
  pos : 0 < c.bucketSeconds
  spans : ∀ span ∈ c.spanSeconds, MadeOf c.bucketSeconds span
  holds : ∀ length ∈ c.bucketSeconds :: c.spanSeconds, HoldsTimes length

/-- a span has the seconds of two buckets at least, and they are below `2 ^ 64` -/
theorem secs_bucket_lt (h : c.fault? kind = none) {d : Duration} (hd : d ∈ c.multiBucketLengths) :
    c.bucketLength.secs.toNat < 2 ^ 63 := by
  obtain ⟨hlt, hdvd⟩ := secs_of_valid h hd
  have hword : d.secs.toNat < 2 ^ 64 := d.secs.toNat_lt
  by_contra hlarge
  have heq : d.secs.toNat = c.bucketLength.secs.toNat :=
    Nat.eq_of_dvd_of_lt_two_mul (by omega) hdvd (by omega)
  omega

theorem madeOf_of_valid (h : c.fault? kind = none) {d : Duration} (hd : d ∈ c.multiBucketLengths)
    (hs : d.secs.toNat < 2 ^ 63) : MadeOf c.bucketSeconds d.seconds := by
  obtain ⟨hsmall, hdvd⟩ := span_of_valid h hd hs
  exact madeOf_of_dvd (bucketSeconds_pos h hsmall) (lt_span_of_valid h hd hs) hdvd

theorem madeOf_iff (h : c.fault? kind = none) {d : Duration} (hd : d ∈ c.multiBucketLengths) :
    MadeOf c.bucketSeconds d.seconds ↔ d.secs.toNat < 2 ^ 63 := by
  constructor
  · intro hmade
    have hpos := bucketSeconds_pos h (secs_bucket_lt h hd)
    exact Duration.secs_lt_of_seconds_pos (hpos.trans hmade.longer)
  · exact madeOf_of_valid h hd

theorem seconds_pos (h : c.fault? kind = none) {d : Duration} (hd : d ∈ c.lengths)
    (hs : d.secs.toNat < 2 ^ 63) : 0 < d.seconds := by
  rcases List.mem_cons.mp hd with rfl | hspan
  · exact bucketSeconds_pos h hs
  · exact (bucketSeconds_pos h (secs_bucket_lt h hspan)).trans (madeOf_of_valid h hspan hs).longer

theorem mem_seconds {length : Int} :
    length ∈ c.bucketSeconds :: c.spanSeconds ↔ ∃ d ∈ c.lengths, d.seconds = length := by
  show length ∈ c.lengths.map Duration.seconds ↔ _
  exact List.mem_map

theorem usable_iff (h : c.fault? kind = none) :
    c.Usable ↔ ∀ d ∈ c.lengths, d.secs.toNat < 2 ^ 63 := by
  constructor
  · intro husable d hd
    have hholds := husable.holds d.seconds (mem_seconds.mpr ⟨d, hd, rfl⟩)
    exact Duration.secs_lt_of_seconds_pos hholds.pos
  · intro hbelow
    refine ⟨seconds_pos h List.mem_cons_self (hbelow _ List.mem_cons_self), ?_, ?_⟩
    · intro span hspan
      obtain ⟨d, hd, rfl⟩ := List.mem_map.mp hspan
      exact madeOf_of_valid h hd (hbelow d (List.mem_cons_of_mem _ hd))
    · intro length hlength
      obtain ⟨d, hd, rfl⟩ := mem_seconds.mp hlength
      exact holdsTimes_of_pos (seconds_pos h hd (hbelow d hd))

/-- a valid configuration is usable just if its lengths are below `2 ^ 63` seconds; each of them
that is lays out buckets, and each that is not is negative and ends every bucket before its times -/
theorem usable_iff_below (h : c.fault? kind = none) :
    (c.Usable ↔ ∀ d ∈ c.lengths, d.secs.toNat < 2 ^ 63) ∧
      (∀ d ∈ c.multiBucketLengths, MadeOf c.bucketSeconds d.seconds ↔ d.secs.toNat < 2 ^ 63) ∧
      (∀ d ∈ c.lengths, d.secs.toNat < 2 ^ 63 → 0 < d.seconds ∧ HoldsTimes d.seconds) ∧
      ∀ d ∈ c.lengths, 2 ^ 63 ≤ d.secs.toNat →
        d.seconds < 0 ∧ ∀ t, bucketAfter t d.seconds < t := by
  refine ⟨usable_iff h, fun d hd => madeOf_iff h hd, ?_, ?_⟩
  · intro d hd hs
    have hpos := seconds_pos h hd hs
    exact ⟨hpos, holdsTimes_of_pos hpos⟩
  · intro d hd hs
    have hneg := Duration.seconds_neg hs
    exact ⟨hneg, bucketAfter_lt_of_neg hneg⟩

/-- a bucket of `2 ^ 63` seconds is valid and negative, and so is the span of `2 ^ 64 - 16` seconds
over buckets of a minute, next to one that is made of them -/
theorem usable_iff_below_of_long :
    let c : Config := { Config.default with bucketLength := .ofSecs 9223372036854775808 }
    let c' : Config := { Config.default with
      bucketLength := .ofSecs 60
      multiBucketLengths := [.ofSecs 600, .ofSecs 18446744073709551600] }
    (c.fault? .eventRate = none ∧ c.bucketSeconds = -9223372036854775808 ∧ ¬ c.Usable) ∧
      c'.fault? .eventRate = none ∧ (c'.bucketSeconds, c'.spanSeconds) = (60, [600, -16]) ∧
      MadeOf 60 600 ∧ ¬ c'.Usable := by
  intro c c'
  have hvalid : c.fault? .eventRate = none := by decide
  have hvalid' : c'.fault? .eventRate = none := by decide
  have h := usable_iff_below hvalid
  have h' := usable_iff_below hvalid'
  refine ⟨⟨hvalid, by decide, fun husable => ?_⟩, hvalid', by decide, ?_, fun husable => ?_⟩
  · exact absurd (h.1.mp husable (.ofSecs 9223372036854775808) (by decide)) (by decide)
  · exact (h'.2.1 (.ofSecs 600) (by decide)).mpr (by decide)
  · exact absurd (h'.1.mp husable (.ofSecs 18446744073709551600) (by decide)) (by decide)

end Config

end EventBuckets
