import EventBuckets.Proofs.Arithmetic
import EventBuckets.Proofs.InStep
import EventBuckets.Proofs.NumberText
import EventBuckets.Proofs.Provenance
import EventBuckets.Proofs.Removal
import EventBuckets.Proofs.SameRecords
import EventBuckets.Proofs.SeriesKept

/-!
# Where NaN comes from

Values are finite, but sums of them may overflow.  Within a bucket only finite values are added, so
an infinite sum stays what it is; it is the merging of buckets into a span that may bring together
sums that overflowed to opposite sides, and nothing else makes a NaN.

* `Summary.Bounded`, `Summary.Numeric`
                        least and greatest values are finite; sums are no NaN either;
* `Summary.Clashes`, ... sums of opposite infinities, in two statistics, buckets, a window;
* `Metrics.Each`, `SampleCounts.Each`
                        each pair of a bucket, each sample count has a property;
* `Measured.HoldsNumbers`
                        buckets hold numbers, spans what is asked for, sample counts are in range;
* `Gatherer.holds_perform`, `Gatherer.holds_sample_iff`
                        an operation keeps that, unless it samples a bucket that clashes;
* `Gatherer.StoresNoNaN`, `Gatherer.FloatsReadBack`
                        no float is NaN, each float reads back from its text bit by bit;
* `nan_iff_clash`       over a whole run NaN comes from a clash, and from nothing else.
-/

set_option linter.unusedSectionVars false

namespace EventBuckets

/-! ## lists of floats -/

/-- combining two lists in each position gives what has a property, if what the positions of both
combine to has it -/
theorem forall_zipLonger {α : Type} {f : α → α → α} {p : α → Prop} {as bs : List α}
    (has : ∀ a ∈ as, p a) (hbs : ∀ b ∈ bs, p b) :
    (∀ x ∈ zipLonger f as bs, p x) ↔ ∀ e ∈ as.zip bs, p (f e.1 e.2) := by
  induction as generalizing bs with
  | nil => simpa [zipLonger] using hbs
  | cons a as ih =>
    cases bs with
    | nil => simpa [zipLonger] using has
    | cons b bs =>
      have hrest := ih (fun x hx => has x (List.mem_cons_of_mem a hx))
        (fun x hx => hbs x (List.mem_cons_of_mem b hx))
      simp only [zipLonger, List.zip_cons_cons, List.forall_mem_cons, hrest]

namespace Binary64
variable {a b : Binary64}

theorem isFinite_min (ha : a.isFinite = true) (hb : b.isFinite = true) :
    (Binary64.min a b).isFinite = true := by
  unfold Binary64.min
  split
  · exact hb
  · split
    · exact ha
    · split
      · exact hb
      · exact ha

theorem isFinite_max (ha : a.isFinite = true) (hb : b.isFinite = true) :
    (Binary64.max a b).isFinite = true := by
  unfold Binary64.max
  split
  · exact hb
  · split
    · exact ha
    · split
      · exact hb
      · exact ha

theorem isNaN_add_of_isFinite (ha : a.isNaN = false) (hb : b.isFinite = true) :
    (a + b).isNaN = false := by
  rw [Bool.eq_false_iff, Ne, isNaN_add_iff ha (isNaN_of_isFinite hb)]
  intro h
  exact absurd h.2.1 (by simp [not_isInfinite_of_isFinite hb])

end Binary64

/-! ## statistics -/

namespace Summary
variable {s t : Summary}

/-- the least and the greatest values are finite -/
structure Bounded (s : Summary) : Prop where
  min : ∀ x ∈ s.min, x.isFinite = true
  max : ∀ x ∈ s.max, x.isFinite = true

/-- and the sums are no NaN -/
structure Numeric (s : Summary) : Prop extends s.Bounded where
  sum : ∀ x ∈ s.sum, x.isNaN = false

/-- no component is NaN -/
def NoNaN (s : Summary) : Prop := ∀ x ∈ s.sum ++ s.min ++ s.max, x.isNaN = false

/-- the written components read back, bit by bit -/
def ReadsBack (s : Summary) : Prop :=
  ∀ xs ∈ [s.sum, s.min, s.max], Node.readFloats (joinFloats xs) = some xs

/-- in some dimension the sums are infinities of opposite signs -/
def Clashes (s t : Summary) : Prop := ∃ e ∈ s.sum.zip t.sum, Binary64.Opposed e.1 e.2

instance : DecidableRel Clashes := fun _ _ => inferInstanceAs (Decidable (∃ _ ∈ _, _))

theorem numeric_empty : (∅ : Summary).Numeric := ⟨⟨nofun, nofun⟩, nofun⟩

theorem not_clashes_empty (t : Summary) : ¬(∅ : Summary).Clashes t := by
  rintro ⟨e, he, -⟩
  cases he

theorem Bounded.noNaN_iff (h : s.Bounded) : s.NoNaN ↔ s.Numeric := by
  refine ⟨fun hn => ⟨h, fun x hx => hn x (by simp [hx])⟩, fun hn x hx => ?_⟩
  rcases List.mem_append.mp hx with hx | hx
  · rcases List.mem_append.mp hx with hx | hx
    · exact hn.sum x hx
    · exact Binary64.isNaN_of_isFinite (hn.min x hx)
  · exact Binary64.isNaN_of_isFinite (hn.max x hx)

theorem NoNaN.readsBack (h : s.NoNaN) : s.ReadsBack := by
  intro xs hxs
  refine readFloats_joinFloats fun x hx => h x ?_
  simp only [List.mem_cons, List.not_mem_nil, or_false] at hxs
  rcases hxs with rfl | rfl | rfl <;> simp [hx]

theorem Bounded.mergeWith (h : s.Bounded) (h' : t.Bounded) : (s.mergeWith t).Bounded :=
  ⟨(forall_zipLonger h.min h'.min).mpr fun _ he =>
      Binary64.isFinite_min (h.min _ (List.of_mem_zip he).1) (h'.min _ (List.of_mem_zip he).2),
    (forall_zipLonger h.max h'.max).mpr fun _ he =>
      Binary64.isFinite_max (h.max _ (List.of_mem_zip he).1) (h'.max _ (List.of_mem_zip he).2)⟩

/-- a measurement of finite values leaves the sums what they are: numbers -/
theorem Numeric.add (h : s.Numeric) {values : List Binary64}
    (hv : ∀ x ∈ values, x.isFinite = true) : (s.add values).Numeric := by
  have hbounded := h.toBounded.mergeWith (t := ⟨1, values, values, values⟩) ⟨hv, hv⟩
  unfold Summary.add
  split
  · exact h
  · refine ⟨⟨hbounded.min, hbounded.max⟩, ?_⟩
    refine (forall_zipLonger h.sum fun x hx => Binary64.isNaN_of_isFinite (hv x hx)).mpr ?_
    intro e he
    exact Binary64.isNaN_add_of_isFinite (h.sum _ (List.of_mem_zip he).1)
      (hv _ (List.of_mem_zip he).2)

/-- the merged sums are numbers, unless they clash -/
theorem Numeric.mergeWith_iff (h : s.Numeric) (h' : t.Numeric) :
    (s.mergeWith t).Numeric ↔ ¬s.Clashes t := by
  have hadd (e : Binary64 × Binary64) (he : e ∈ s.sum.zip t.sum) :
      (e.1 + e.2).isNaN = false ↔ ¬Binary64.Opposed e.1 e.2 := by
    rw [Bool.eq_false_iff, Ne, Binary64.isNaN_add_iff (h.sum _ (List.of_mem_zip he).1)
      (h'.sum _ (List.of_mem_zip he).2)]
  have hsum : (∀ x ∈ (s.mergeWith t).sum, x.isNaN = false) ↔ ¬s.Clashes t := by
    refine (forall_zipLonger h.sum h'.sum).trans ?_
    simp only [Clashes, not_exists, not_and]
    exact forall₂_congr hadd
  exact ⟨fun hm => hsum.mp hm.sum, fun hc =>
    ⟨h.toBounded.mergeWith h'.toBounded, hsum.mpr hc⟩⟩

end Summary

/-! ## buckets -/

namespace Metrics
variable {P Q : Summary → Prop} {m m' : Metrics}

/-- the statistics of each pair have a property -/
def Each (P : Summary → Prop) (m : Metrics) : Prop := ∀ p s, m.get? p = some s → P s

/-- the statistics of some pair clash -/
def Clashes (m m' : Metrics) : Prop :=
  ∃ e ∈ m'.byPair.toList, ∃ s ∈ m.get? e.1, s.Clashes e.2

instance : DecidableRel Clashes := fun _ _ => inferInstanceAs (Decidable (∃ _ ∈ _, _))

theorem each_empty (P : Summary → Prop) : (∅ : Metrics).Each P :=
  eachValue_empty

theorem not_clashes_empty (m : Metrics) : ¬(∅ : Metrics).Clashes m := by
  rintro ⟨e, -, s, hs, -⟩
  exact each_empty (fun _ => False) e.1 s hs

theorem Each.mono (h : m.Each P) (hPQ : ∀ s, P s → Q s) : m.Each Q := fun p s hs => hPQ s (h p s hs)

theorem Each.getD (h : m.Each P) (hempty : P ∅) (p : Pair) : P ((m.get? p).getD ∅) := by
  cases hs : m.get? p with
  | none => exact hempty
  | some s => exact h p s hs

theorem Each.add (h : m.Each P) (hempty : P ∅) (p : Pair) {values : List Binary64}
    (hadd : ∀ s, P s → P (s.add values)) : (m.add p values).Each P := by
  intro q s hs
  have hget : (m.add p values).get? q =
      if compare p q = .eq then some (((m.get? p).getD ∅).add values) else m.get? q :=
    Std.ExtTreeMap.getElem?_alter
  rw [hget] at hs
  split at hs
  · obtain rfl := Option.some.inj hs
    exact hadd _ (h.getD hempty p)
  · exact h q s hs

theorem Each.retain (h : m.Each P) (keeps : Pair → Bool) : (PairData.retain keeps m).Each P :=
  EachValue.filter h keeps

theorem each_merge_iff : (merge m m').Each P ↔
    (∀ p s, m'.get? p = none → m.get? p = some s → P s) ∧
      ∀ p t, m'.get? p = some t → P (((m.get? p).getD ∅).mergeWith t) := by
  unfold Each
  simp only [get?_merge]
  refine ⟨fun h => ⟨fun p s hnone hs => h p s (by rw [hnone]; exact hs),
    fun p t ht => h p _ (by rw [ht]; rfl)⟩, fun ⟨hkept, hmerged⟩ p s hs => ?_⟩
  cases ht : m'.get? p with
  | none =>
    rw [ht] at hs
    exact hkept p s ht hs
  | some t =>
    rw [ht] at hs
    obtain rfl := Option.some.inj hs
    exact hmerged p t ht

theorem Each.merge_bounded (h : m.Each Summary.Bounded) (h' : m'.Each Summary.Bounded) :
    (merge m m').Each Summary.Bounded :=
  each_merge_iff.mpr ⟨fun p s _ hs => h p s hs, fun p t ht =>
    (h.getD Summary.numeric_empty.toBounded p).mergeWith (h' p t ht)⟩

theorem Each.merge_numeric_iff (h : m.Each Summary.Numeric) (h' : m'.Each Summary.Numeric) :
    (merge m m').Each Summary.Numeric ↔ ¬m.Clashes m' := by
  have hpair (p : Pair) (t : Summary) (ht : m'.get? p = some t) :
      (((m.get? p).getD ∅).mergeWith t).Numeric ↔ ¬∃ s ∈ m.get? p, s.Clashes t := by
    rw [(h.getD Summary.numeric_empty p).mergeWith_iff (h' p t ht)]
    cases m.get? p with
    | none => simpa using Summary.not_clashes_empty t
    | some s => simp
  rw [each_merge_iff]
  constructor
  · rintro ⟨-, hmerged⟩ ⟨⟨p, t⟩, hmem, hclash⟩
    have ht : m'.get? p = some t := Std.ExtTreeMap.mem_toList_iff_getElem?_eq_some.mp hmem
    exact (hpair p t ht).mp (hmerged p t ht) hclash
  · intro hno
    refine ⟨fun p s _ hs => h p s hs, fun p t ht => (hpair p t ht).mpr fun hclash => ?_⟩
    exact hno ⟨(p, t), Std.ExtTreeMap.mem_toList_iff_getElem?_eq_some.mpr ht, hclash⟩

end Metrics

/-! ## windows -/

namespace Spans
variable {s : Spans Metrics} {P : Metrics → Prop} {start : Int} {bucket : Metrics}

theorem Each.release (h : s.Each P) (cutoff : Int) : (s.release cutoff).1.Each P := by
  intro length o ho
  unfold Spans.release at ho
  rw [Std.ExtTreeMap.getElem?_map] at ho
  obtain ⟨old, hold, ho⟩ := Option.map_eq_some_iff.mp ho
  split at ho
  · cases ho
  · exact h length o (ho ▸ hold)

/-- sampling merges the bucket into the spans that are open where it falls, and opens others -/
theorem Each.sample (h : s.Each P) (hopen : P (merge ∅ bucket))
    (hmerge : ∀ (length : Int) o, s.byLength[length]? = some (some o) →
      o.start = bucketAt start length → P (merge o.contents bucket)) :
    (s.sample start bucket).Each P := by
  intro length o ho
  unfold Spans.sample at ho
  rw [Std.ExtTreeMap.getElem?_map] at ho
  obtain ⟨old, hold, ho⟩ := Option.map_eq_some_iff.mp ho
  unfold sampled at ho
  simp only at ho
  split at ho
  next current =>
    split at ho
    next hstart =>
      obtain rfl := Option.some.inj ho
      exact hmerge length current hold hstart
    next =>
      split at ho
      · obtain rfl := Option.some.inj ho
        exact h length current hold
      · obtain rfl := Option.some.inj ho
        exact hopen
  next =>
    obtain rfl := Option.some.inj ho
    exact hopen

/-- the contents of an open span after the bucket was merged into it -/
theorem Each.of_sample (h : (s.sample start bucket).Each P) {length : Int} {o : OpenSpan Metrics}
    (ho : s.byLength[length]? = some (some o)) (hstart : o.start = bucketAt start length) :
    P (merge o.contents bucket) := by
  refine h length ⟨bucketAt start length, merge o.contents bucket⟩ ?_
  unfold Spans.sample sampled
  rw [Std.ExtTreeMap.getElem?_map, ho]
  simp only [Option.map_some, hstart, if_true]

end Spans

/-- the bucket that starts at `start` clashes with an open span that it falls into -/
def Window.Clashes (w : Window Metrics) (start : Int) : Prop :=
  ∃ bucket ∈ w.ring.get? start, ∃ e ∈ w.spans.byLength.toList, ∃ o ∈ e.2,
    o.start = bucketAt start e.1 ∧ o.contents.Clashes bucket

instance (w : Window Metrics) (start : Int) : Decidable (w.Clashes start) :=
  inferInstanceAs (Decidable (∃ _ ∈ _, ∃ _ ∈ _, ∃ _ ∈ _, _))

/-! ## sample counts -/

namespace SampleCounts
variable {s : SampleCounts} {P : Binary64 → Prop}

def Each (s : SampleCounts) (P : Binary64 → Prop) : Prop := ∀ person, P (s.get person)

theorem get_set (s : SampleCounts) (person other : Nat) (x : Binary64) :
    (s.set person x).get other = if person = other then x else s.get other := by
  unfold set get
  split
  next hx =>
    rw [Std.ExtTreeMap.getD_erase]
    simp only [Std.LawfulEqOrd.compare_eq_iff_eq, hx]
  next =>
    rw [Std.ExtTreeMap.getD_insert]
    simp only [Std.LawfulEqOrd.compare_eq_iff_eq]

theorem each_empty (hzero : P 0) : empty.Each P := by
  intro person
  have hget : empty.get person = 0 := Std.ExtTreeMap.getD_empty
  rwa [hget]

theorem Each.update (h : s.Each P) {weight : Binary64}
    (hstep : ∀ x n, P x → P (smoothed weight x n)) (counts : List (Nat × Nat)) :
    (s.update weight counts).Each P := by
  unfold SampleCounts.update
  induction counts generalizing s with
  | nil => exact h
  | cons e counts ih =>
    refine ih fun person => ?_
    show P ((s.updatePerson weight e.1 e.2).get person)
    unfold updatePerson
    split
    · exact h person
    · rw [get_set]
      split
      · exact hstep _ _ (h e.1)
      · exact h person

theorem Each.retain (h : s.Each P) (hzero : P 0) (keeps : Nat → Bool) : (s.retain keeps).Each P := by
  intro person
  rw [get_retain]
  split
  · exact h person
  · exact hzero

end SampleCounts

/-! ## series -/

namespace Window
variable {α : Type} [PairData α] {w : Window α} {P : α → Prop}

theorem forall_contents_iff : (∀ a ∈ w.contents, P a) ↔ w.ring.Each P ∧ w.spans.Each P := by
  unfold contents
  rw [List.forall_mem_append]
  refine and_congr ⟨fun h a ha => h a (Array.mem_toList_iff.mpr ha),
    fun h a ha => h a (Array.mem_toList_iff.mp ha)⟩ ⟨fun h length o ho => ?_, fun h a ha => ?_⟩
  · have hmem : (length, some o) ∈ w.spans.byLength.toList :=
      Std.ExtTreeMap.mem_toList_iff_getElem?_eq_some.mpr ho
    exact h _ (List.mem_filterMap.mpr ⟨_, hmem, rfl⟩)
  · obtain ⟨⟨length, span⟩, hmem, ho⟩ := List.mem_filterMap.mp ha
    obtain ⟨o, rfl, rfl⟩ := Option.map_eq_some_iff.mp ho
    exact h length o (Std.ExtTreeMap.mem_toList_iff_getElem?_eq_some.mp hmem)

end Window

namespace Measured
variable {m : Measured} {Q : Summary → Prop} {c : Config}

/-- single buckets hold numbers, open spans what is asked for, and sample counts are in range -/
structure HoldsNumbers (m : Measured) (Q : Summary → Prop) : Prop where
  weight : m.weight.IsWeight
  buckets : m.window.ring.Each (Metrics.Each Summary.Numeric)
  spans : m.window.spans.Each (Metrics.Each Q)
  samples : m.samples.Each IsCount

theorem holds_new (hc : Config.isShare c.sampleCountWeight = true) (t : Int) (Q : Summary → Prop) :
    (new c t).HoldsNumbers Q :=
  ⟨Binary64.isWeight_of_isShare hc, Ring.each_new (Metrics.each_empty _) _ _ _,
    Spans.each_new _ _, SampleCounts.each_empty isCount_zero⟩

/-- a bucket that leaves moves each count by a share, which keeps it in range -/
theorem HoldsNumbers.startBucket (h : m.HoldsNumbers Q) (start : Int) (counting : Bool) :
    (m.startBucket start counting).HoldsNumbers Q := by
  have hroll := h.buckets.roll (Metrics.each_empty _) start
  cases counting with
  | false => exact ⟨h.weight, hroll, h.spans, h.samples⟩
  | true =>
    exact ⟨h.weight, hroll, h.spans, h.samples.update (fun _ n hx => hx.smoothed h.weight n) _⟩

theorem HoldsNumbers.add (h : m.HoldsNumbers Q) (t : Int) (p : Pair) {values : List Binary64}
    (hv : ∀ x ∈ values, x.isFinite = true) : (m.add t p values).HoldsNumbers Q :=
  ⟨h.weight, h.buckets.modify t (fun _ => id)
    fun _ hb => hb.add Summary.numeric_empty p fun _ hs => hs.add hv, h.spans, h.samples⟩

theorem HoldsNumbers.retain (h : m.HoldsNumbers Q) (keeps : Pair → Bool) :
    (m.retain keeps).HoldsNumbers Q :=
  ⟨h.weight, h.buckets.mapTimed fun _ _ hb => hb.retain keeps, h.spans, h.samples⟩

theorem HoldsNumbers.retainPeople (h : m.HoldsNumbers Q) (keeps : Nat → Bool) :
    (m.retainPeople keeps).HoldsNumbers Q :=
  ⟨h.weight, (h.retain fun p => keeps p.person).buckets, h.spans,
    h.samples.retain isCount_zero keeps⟩

theorem HoldsNumbers.emptyBucket (h : m.HoldsNumbers Q) (t : Int) :
    ({ m with window := m.window.emptyBucket t } : Measured).HoldsNumbers Q :=
  ⟨h.weight, h.buckets.modify t (fun _ => id) fun _ _ => Metrics.each_empty _, h.spans, h.samples⟩

theorem HoldsNumbers.release (h : m.HoldsNumbers Q) (cutoff : Int) :
    ({ m with window := (m.window.release cutoff).1 } : Measured).HoldsNumbers Q := by
  refine ⟨h.weight, ?_, h.spans.release cutoff, h.samples⟩
  show ((m.window.release cutoff).1).ring.Each _
  rw [Window.ring_release]
  refine h.buckets.mapTimed fun start bucket hb => ?_
  split
  · exact Metrics.each_empty _
  · exact hb

theorem HoldsNumbers.clear (h : m.HoldsNumbers Q) : m.clear.HoldsNumbers Q :=
  ⟨h.weight, Ring.each_clear (Metrics.each_empty _) _, Spans.each_clear _ _,
    SampleCounts.each_empty isCount_zero⟩

theorem HoldsNumbers.reset (h : m.HoldsNumbers Q) (t : Int) :
    ({ m with window := m.window.reset t } : Measured).HoldsNumbers Q :=
  ⟨h.weight, Ring.each_clear (Metrics.each_empty _) m.window.ring, Spans.each_clear _ _, h.samples⟩

/-! ### sampling -/

theorem HoldsNumbers.sample (h : m.HoldsNumbers Q) (start : Int)
    (hopen : ∀ bucket : Metrics, bucket.Each Summary.Numeric → (merge ∅ bucket).Each Q)
    (hmerge : ∀ bucket ∈ m.window.ring.get? start, ∀ (length : Int) o,
      m.window.spans.byLength[length]? = some (some o) → o.start = bucketAt start length →
        (merge o.contents bucket).Each Q) :
    ({ m with window := m.window.sample start } : Measured).HoldsNumbers Q := by
  unfold Window.sample
  split
  next bucket hb =>
    exact ⟨h.weight, h.buckets, h.spans.sample (hopen bucket (h.buckets.of_get? hb))
      (hmerge bucket hb), h.samples⟩
  next => exact h

theorem HoldsNumbers.sample_bounded (h : m.HoldsNumbers Summary.Bounded) (start : Int) :
    ({ m with window := m.window.sample start } : Measured).HoldsNumbers Summary.Bounded := by
  refine h.sample start (fun bucket hb => ?_) fun bucket hb length o ho _ => ?_
  · exact (Metrics.each_empty _).merge_bounded (hb.mono fun _ => Summary.Numeric.toBounded)
  · exact (h.spans length o ho).merge_bounded
      ((h.buckets.of_get? hb).mono fun _ => Summary.Numeric.toBounded)

/-- sampling a bucket into spans that hold numbers gives numbers, unless they clash -/
theorem HoldsNumbers.sample_iff (h : m.HoldsNumbers Summary.Numeric) (start : Int) :
    ({ m with window := m.window.sample start } : Measured).HoldsNumbers Summary.Numeric ↔
      ¬m.window.Clashes start := by
  constructor
  · rintro hafter ⟨bucket, hb, ⟨length, span⟩, hmem, o, rfl, hstart, hclash⟩
    have ho : m.window.spans.byLength[length]? = some (some o) :=
      Std.ExtTreeMap.mem_toList_iff_getElem?_eq_some.mp hmem
    have hspans := hafter.spans
    unfold Window.sample at hspans
    rw [show m.window.ring.get? start = some bucket from hb] at hspans
    have hmerged := hspans.of_sample ho hstart
    exact ((h.spans length o ho).merge_numeric_iff (h.buckets.of_get? hb)).mp hmerged hclash
  · intro hno
    refine h.sample start (fun bucket hb => ?_) fun bucket hb length o ho hstart => ?_
    · exact ((Metrics.each_empty _).merge_numeric_iff hb).mpr (Metrics.not_clashes_empty bucket)
    · refine ((h.spans length o ho).merge_numeric_iff (h.buckets.of_get? hb)).mpr fun hclash => ?_
      have hmem : (length, some o) ∈ m.window.spans.byLength.toList :=
        Std.ExtTreeMap.mem_toList_iff_getElem?_eq_some.mpr ho
      exact hno ⟨bucket, hb, (length, some o), hmem, o, rfl, hstart, hclash⟩

end Measured

namespace Series
variable {s : Series} {Q : Summary → Prop}

/-- a series of measurements that holds numbers -/
def HoldsNumbers (s : Series) (Q : Summary → Prop) : Prop :=
  ∃ m, s = measured m ∧ m.HoldsNumbers Q

/-- a series of measurements, whose statistics and sample counts each have a property -/
def Every (s : Series) (P : Summary → Prop) (C : Binary64 → Prop) : Prop :=
  ∃ m, s = measured m ∧ (∀ bucket ∈ m.window.contents, bucket.Each P) ∧ m.samples.Each C

/-- the bucket that starts at `start` clashes with an open span that it falls into -/
def Clashes (s : Series) (start : Int) : Prop := ∃ m, s = measured m ∧ m.window.Clashes start

theorem clashes_measured {m : Measured} {start : Int} :
    (measured m).Clashes start ↔ m.window.Clashes start := by
  simp [Clashes]

instance : (s : Series) → (start : Int) → Decidable (s.Clashes start)
  | occurrences _, _ => .isFalse nofun
  | measured _, _ => decidable_of_iff _ clashes_measured.symm

theorem HoldsNumbers.startBucket (h : s.HoldsNumbers Q) (start : Int) (counting : Bool) :
    (s.startBucket start counting).HoldsNumbers Q := by
  obtain ⟨m, rfl, h⟩ := h
  exact ⟨_, rfl, h.startBucket start counting⟩

theorem HoldsNumbers.add (h : s.HoldsNumbers Q) (t : Int) (p : Pair) {e : Event}
    (hv : e.values.all Binary64.isFinite = true) : (s.add t p e).HoldsNumbers Q := by
  obtain ⟨m, rfl, h⟩ := h
  exact ⟨_, rfl, h.add t p (List.all_eq_true.mp hv)⟩

theorem HoldsNumbers.retainPeople (h : s.HoldsNumbers Q) (keeps : Nat → Bool) :
    (s.retainPeople keeps).HoldsNumbers Q := by
  obtain ⟨m, rfl, h⟩ := h
  exact ⟨_, rfl, h.retainPeople keeps⟩

theorem HoldsNumbers.retainAttributes (h : s.HoldsNumbers Q) (keeps : Nat → Bool) :
    (s.retainAttributes keeps).HoldsNumbers Q := by
  obtain ⟨m, rfl, h⟩ := h
  exact ⟨_, rfl, h.retain fun p => keeps p.attr⟩

theorem HoldsNumbers.emptyBucket (h : s.HoldsNumbers Q) (t : Int) :
    (s.emptyBucket t).HoldsNumbers Q := by
  obtain ⟨m, rfl, h⟩ := h
  exact ⟨_, rfl, h.emptyBucket t⟩

theorem HoldsNumbers.release (h : s.HoldsNumbers Q) (cutoff : Int) :
    (s.release cutoff).1.HoldsNumbers Q := by
  obtain ⟨m, rfl, h⟩ := h
  exact ⟨_, rfl, h.release cutoff⟩

theorem HoldsNumbers.clear (h : s.HoldsNumbers Q) : s.clear.HoldsNumbers Q := by
  obtain ⟨m, rfl, h⟩ := h
  exact ⟨_, rfl, h.clear⟩

theorem HoldsNumbers.reset (h : s.HoldsNumbers Q) (t : Int) : (s.reset t).HoldsNumbers Q := by
  obtain ⟨m, rfl, h⟩ := h
  exact ⟨_, rfl, h.reset t⟩

/-- whatever is asked of spans, all operations but sampling keep it -/
theorem kept_holdsNumbers (Q : Summary → Prop) : Kept fun s => s.HoldsNumbers Q where
  startBucket h start counting := h.startBucket start counting
  add h t p _ hv := h.add t p hv
  retainPeople h keeps := h.retainPeople keeps
  retainAttributes h keeps := h.retainAttributes keeps
  emptyBucket h t := h.emptyBucket t
  release h cutoff := h.release cutoff
  clear h := h.clear
  reset h t := h.reset t

theorem HoldsNumbers.sample_bounded (h : s.HoldsNumbers Summary.Bounded) (start : Int) :
    (s.sample start).HoldsNumbers Summary.Bounded := by
  obtain ⟨m, rfl, h⟩ := h
  exact ⟨_, rfl, h.sample_bounded start⟩

theorem HoldsNumbers.sample_iff (h : s.HoldsNumbers Summary.Numeric) (start : Int) :
    (s.sample start).HoldsNumbers Summary.Numeric ↔ ¬s.Clashes start := by
  obtain ⟨m, rfl, h⟩ := h
  rw [clashes_measured, ← h.sample_iff start]
  simp [HoldsNumbers, Series.sample]

/-- a series whose spans hold numbers is one without NaN -/
theorem HoldsNumbers.every_iff (h : s.HoldsNumbers Summary.Bounded) :
    (s.Every Summary.NoNaN fun x => x.isNaN = false) ↔ s.HoldsNumbers Summary.Numeric := by
  obtain ⟨m, rfl, h⟩ := h
  unfold Every HoldsNumbers
  constructor
  · rintro ⟨_, ⟨⟩, hcontents, -⟩
    obtain ⟨-, hspans⟩ := Window.forall_contents_iff.mp hcontents
    refine ⟨_, rfl, h.weight, h.buckets, fun length o ho p s hs => ?_, h.samples⟩
    exact (h.spans length o ho p s hs).noNaN_iff.mp (hspans length o ho p s hs)
  · rintro ⟨_, ⟨⟩, hn⟩
    have hnumeric (s : Summary) (hs : s.Numeric) : s.NoNaN := hs.toBounded.noNaN_iff.mpr hs
    refine ⟨_, rfl, Window.forall_contents_iff.mpr ⟨fun bucket hb => ?_, fun length o ho => ?_⟩,
      fun person => Binary64.isNaN_of_isFinite (hn.samples person).finite⟩
    · exact (hn.buckets bucket hb).mono hnumeric
    · exact (hn.spans length o ho).mono hnumeric

theorem Every.mono {P P' : Summary → Prop} {C C' : Binary64 → Prop} (h : s.Every P C)
    (hP : ∀ x, P x → P' x) (hC : ∀ x, C x → C' x) : s.Every P' C' := by
  obtain ⟨m, rfl, hcontents, hsamples⟩ := h
  exact ⟨m, rfl, fun bucket hb => (hcontents bucket hb).mono hP,
    fun person => hC _ (hsamples person)⟩

end Series

/-! ## gatherers -/

namespace Gatherer
variable {g : Gatherer} {Q : Summary → Prop} {c : Config} {t : Int}

/-- no component of a sum, a least or a greatest value, and no sample count is NaN -/
def StoresNoNaN (g : Gatherer) : Prop := g.series.Every Summary.NoNaN fun x => x.isNaN = false

/-- every float reads back from its text, bit by bit -/
def FloatsReadBack (g : Gatherer) : Prop :=
  g.series.Every Summary.ReadsBack fun x => readFloat (floatText x) = some x

/-- sampling the bucket that holds `time` merges opposite infinities -/
def Clashes (g : Gatherer) (time : Int) : Prop :=
  let h := g.advance (g.lastCall time) true
  h.series.Clashes (bucketAt time h.length)

instance (g : Gatherer) (time : Int) : Decidable (g.Clashes time) :=
  inferInstanceAs (Decidable (Series.Clashes _ _))

theorem holds_new (hnew : new .metric c t = .ok g) (Q : Summary → Prop) : g.series.HoldsNumbers Q := by
  have hvalid := valid_of_new hnew
  rw [new_eq hvalid] at hnew
  obtain rfl := Except.ok.inj hnew
  exact ⟨_, rfl, Measured.holds_new (Config.isShare_of_valid hvalid) t Q⟩

theorem holds_perform (h : g.series.HoldsNumbers Q) {op : Op} (hop : ∀ t, op ≠ .sample t) :
    (g.perform op).2.series.HoldsNumbers Q :=
  (Series.kept_holdsNumbers Q).perform h hop

theorem holds_sample_iff (h : g.series.HoldsNumbers Summary.Numeric) (t : Int) :
    (g.sample t).series.HoldsNumbers Summary.Numeric ↔ ¬g.Clashes t := by
  have hmoved := (Series.kept_holdsNumbers Summary.Numeric).advance h (g.lastCall t) true
  unfold Gatherer.sample Clashes
  simp only
  generalize g.advance (g.lastCall t) true = g' at hmoved
  exact hmoved.sample_iff _

/-- least and greatest values stay finite, and sample counts in range, over every run -/
theorem holds_run (h : g.series.HoldsNumbers Summary.Bounded) (ops : List Op) :
    (g.run ops).series.HoldsNumbers Summary.Bounded :=
  (Series.kept_holdsNumbers Summary.Bounded).run Series.HoldsNumbers.sample_bounded h ops

theorem StoresNoNaN.floatsReadBack (h : g.StoresNoNaN) : g.FloatsReadBack :=
  h.mono (fun _ => Summary.NoNaN.readsBack) fun _ => readFloat_floatText

/-- a run of a gatherer of measurements never has NaN in a bucket, in a sample count or in a least
or greatest value; it has none at all exactly if no bucket that it samples clashes with a span, and
then every float that is written reads back -/
theorem nan_iff_clash (hnew : new .metric c t = .ok g) (ops : List Op) :
    (g.run ops).series.HoldsNumbers Summary.Bounded ∧
    ((∀ before, before <+: ops → (g.run before).StoresNoNaN) ↔
      ∀ before time, before ++ [.sample time] <+: ops → ¬(g.run before).Clashes time) ∧
    ((g.run ops).StoresNoNaN → (g.run ops).FloatsReadBack) := by
  have hbounded (before : List Op) := holds_run (holds_new hnew Summary.Bounded) before
  have hiff (before : List Op) : (g.run before).StoresNoNaN ↔
      (g.run before).series.HoldsNumbers Summary.Numeric := (hbounded before).every_iff
  refine ⟨hbounded ops, ⟨fun hall before time hprefix => ?_, fun hno before => ?_⟩,
    StoresNoNaN.floatsReadBack⟩
  · have hbefore := (hiff before).mp (hall before ((List.prefix_append _ _).trans hprefix))
    have hafter := (hiff _).mp (hall _ hprefix)
    rw [run_append] at hafter
    exact (holds_sample_iff hbefore time).mp hafter
  · -- by induction on the operations so far, the last of which is the one that could clash
    induction before using List.reverseRecOn with
    | nil => exact fun _ => (hiff []).mpr (holds_new hnew Summary.Numeric)
    | append_singleton before op ih =>
      intro hprefix
      have hbefore := (hiff before).mp (ih ((List.prefix_append _ _).trans hprefix))
      rw [hiff, run_append]
      by_cases hop : ∀ t, op ≠ .sample t
      · exact holds_perform hbefore hop
      · obtain ⟨time, rfl⟩ := by simpa using hop
        exact (holds_sample_iff hbefore time).mpr (hno before time hprefix)

/-- two buckets whose sums overflow to opposite sides, sampled into one span -/
theorem nan_iff_clash_opposite_buckets :
    let c : Config := { Config.default with
      bucketLength := .ofSecs 60, multiBucketLengths := [.ofSecs 120], features := [.sum] }
    let d : Directory := ⟨fun _ => .active, fun _ => .active⟩
    let event (time : Int) (x : Binary64) : Event :=
      ⟨some time, some 1, some 2, [x], some 1, none, [], false⟩
    let most : Binary64 := ⟨0x7fefffffffffffff⟩
    let least : Binary64 := ⟨0xffefffffffffffff⟩
    let before : List Op := [.add d (event 0 most), .add d (event 1 most), .sample 0,
      .add d (event 60 least), .add d (event 61 least)]
    ∃ g, new .metric c 0 = .ok g ∧
      (g.run (before ++ [.sample 60])).series.HoldsNumbers Summary.Bounded ∧
      ¬∀ ops, ops <+: before ++ [.sample 60] → (g.run ops).StoresNoNaN := by
  intro c d event most least before
  have hvalid : c.fault? .metric = none := by decide
  have hnew := new_eq hvalid 0
  obtain ⟨hbounded, hiff, -⟩ := nan_iff_clash hnew (before ++ [.sample 60])
  refine ⟨_, hnew, hbounded, ?_⟩
  rw [hiff]
  intro hno
  refine hno before 60 (List.prefix_refl _) ?_
  decide +kernel

end Gatherer

end EventBuckets
