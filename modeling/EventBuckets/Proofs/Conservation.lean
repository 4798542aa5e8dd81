import EventBuckets.Proofs.Order
import EventBuckets.Proofs.Cursor

/-!
# What a replay writes of what it takes

A replay writes the counts of each bucket once, when it samples the bucket.  What is taken into a
bucket that has been passed already is not written any more.

* `writtenCount`            the counts of a pair over the lines of single buckets;
* `Run.writtenCount_ending`
                            the lines of a bucket write the counts that it holds;
* `Run.Balanced`            what has been written is what was taken into the buckets passed so far;
* `Arrival`                 a record that was taken in, and the bucket that was next at that time;
* `Replay.counts_balance`   written and missed counts are all counts.
-/

set_option linter.unusedSectionVars false

namespace EventBuckets

/-! ## lines -/

/-- the counts of a pair in a readout -/
def Readout.countOf (p : Pair) : Readout → Nat
  | .pairCounts counts => ((counts.filter fun e => e.1 = p).map Prod.snd).sum
  | _ => 0

/-- the counts of a pair that lines of single buckets write, where buckets have a length -/
def writtenCount (length : Int) (p : Pair) (lines : List FeatureLine) : Nat :=
  ((lines.filter fun l => l.length = length ∧ l.feature = .countByPair).map
    fun l => l.values.countOf p).sum

section
variable {length : Int} {p : Pair}

@[simp] theorem writtenCount_nil : writtenCount length p [] = 0 := rfl

theorem writtenCount_cons (l : FeatureLine) (ls : List FeatureLine) :
    writtenCount length p (l :: ls) =
      (if l.length = length ∧ l.feature = .countByPair then l.values.countOf p else 0) +
        writtenCount length p ls := by
  unfold writtenCount
  rw [List.filter_cons]
  by_cases h : l.length = length ∧ l.feature = .countByPair
  · simp [h]
  · simp [h]

theorem writtenCount_append (ls ls' : List FeatureLine) :
    writtenCount length p (ls ++ ls') = writtenCount length p ls + writtenCount length p ls' := by
  simp [writtenCount]

theorem writtenCount_of_ne {ls : List FeatureLine} (h : ∀ l ∈ ls, l.length ≠ length) :
    writtenCount length p ls = 0 := by
  have hnone : ls.filter (fun l => l.length = length ∧ l.feature = .countByPair) = [] :=
    List.filter_eq_nil_iff.mpr fun l hl => by simp [h l hl]
  rw [writtenCount, hnone]
  rfl

end

namespace Run

/-- the lines of features that are read out of an interval -/
def featureLines (start length : Int) (xs : List (Feature × Readout)) : List FeatureLine :=
  (xs.filter fun r => !r.2.isEmpty).map fun (feature, values) => ⟨start, length, feature, values⟩

theorem writtenCount_featureLines (length start : Int) (p : Pair) (xs : List (Feature × Readout)) :
    writtenCount length p (featureLines start length xs) =
      ((xs.filter fun x => x.1 = .countByPair).map fun x => x.2.countOf p).sum := by
  unfold featureLines
  induction xs with
  | nil => rfl
  | cons x xs ih =>
    obtain ⟨feature, values⟩ := x
    rw [List.filter_cons]
    by_cases hempty : values.isEmpty = true
    · have hzero : values.countOf p = 0 := by
        cases values with
        | pairCounts counts =>
          rw [List.isEmpty_iff.mp hempty]
          rfl
        | personCounts counts => rfl
        | pairReadings readings => rfl
      rw [if_neg (by simp [hempty]), ih, List.filter_cons]
      split
      · rw [List.map_cons, List.sum_cons, hzero, Nat.zero_add]
      · rfl
    · rw [if_pos (by simp [hempty]), List.map_cons, writtenCount_cons, ih, List.filter_cons]
      by_cases hf : feature = .countByPair
      · simp [hf]
      · simp [hf]

/-- among the features read out of occurrences one says the counts of the pairs -/
theorem sum_readouts (s : Occurrences) (t length : Int) (a : Aggregates) (p : Pair)
    (fs : List Feature) :
    (((fs.filterMap fun f => (s.readout? f t length a).map fun values => (f, values)).filter
      fun x => x.1 = .countByPair).map fun x => x.2.countOf p).sum =
      fs.count .countByPair * a.counts[p]?.getD 0 := by
  induction fs with
  | nil => simp
  | cons f fs ih =>
    rw [List.count_cons, Nat.add_mul, Nat.add_comm]
    cases f with
    | countByPair =>
      have hcount : Readout.countOf p (.pairCounts a.counts.toList) = a.counts[p]?.getD 0 :=
        sum_filter_toList a.counts p
      simpa [List.filterMap_cons, Occurrences.readout?, hcount] using ih
    | _ => simpa [List.filterMap_cons, Occurrences.readout?] using ih

variable {g : Gatherer} {c : Config} {p : Pair}

theorem count_features (hg : g.Sound .eventRate c) (hf : .countByPair ∈ c.features) :
    g.features.count .countByPair = 1 := by
  unfold Gatherer.features Config.featuresFor
  rw [hg.config_eq, hg.kind_eq, if_neg (by simpa using List.ne_nil_of_mem hf),
    List.count_filter (by simpa using hf)]
  rfl

/-- the lines of a single bucket write the counts of the bucket -/
theorem writtenCount_linesOf (hg : g.Sound .eventRate c) (hf : .countByPair ∈ c.features)
    (t : Int) : writtenCount g.length p (linesOf g t g.length) =
      ((g.bucket? t).map fun b => b.counts[p]?.getD 0).getD 0 := by
  have hget : g.counts.get? t g.length = g.bucket? t := by
    unfold Window.get? Gatherer.bucket?
    rw [if_pos (hg.length_eq.trans hg.counts.ring.length_eq.symm)]
  obtain ⟨o, ho, -⟩ := hg.series.exists_occurrences
  show writtenCount g.length p (featureLines (bucketAt t g.length) g.length
    (g.readouts t g.length)) = _
  rw [writtenCount_featureLines]
  unfold Gatherer.readouts
  rw [hget, ho]
  cases g.bucket? t with
  | none => rfl
  | some a =>
    apply (sum_readouts o t g.length a p g.features).trans
    rw [count_features hg hf, Nat.one_mul]
    rfl

/-- the lines of a bucket and of the spans that end with it write the counts of the bucket -/
theorem writtenCount_ending (hg : g.Sound .eventRate c) (hf : .countByPair ∈ c.features)
    (t : Int) : writtenCount g.length p ((lengthsEnding g t).flatMap (linesOf g t)) =
      ((g.bucket? t).map fun b => b.counts[p]?.getD 0).getD 0 := by
  unfold lengthsEnding
  rw [List.flatMap_cons, writtenCount_append, writtenCount_linesOf hg hf, writtenCount_of_ne,
    Nat.add_zero]
  intro l hl
  obtain ⟨span, hspan, hl⟩ := List.mem_flatMap.mp hl
  obtain ⟨x, -, rfl⟩ := List.mem_map.mp hl
  rw [List.mem_filter, hg.config_eq] at hspan
  exact hg.spanSeconds_ne hspan.1

/-! ## sampling -/

/-- the counts of a pair that were taken into the buckets before one -/
def takenBefore (length next : Int) (p : Pair) (records : List Recorded) : Nat :=
  Recorded.total (fun x => x.isOf p && decide (bucketAt x.time length < next)) records

theorem takenBefore_append (length next : Int) (p : Pair) (xs ys : List Recorded) :
    takenBefore length next p (xs ++ ys) =
      takenBefore length next p xs + takenBefore length next p ys :=
  Recorded.total_append _ _ _

theorem takenBefore_add {length next : Int} (hl : 0 < length) (hn : length ∣ next) (p : Pair)
    (records : List Recorded) : takenBefore length (next + length) p records =
      takenBefore length next p records +
        Recorded.total (Recorded.isOf p) (recordsAt length next records) := by
  unfold takenBefore recordsAt
  rw [Recorded.total_filter]
  apply Recorded.total_add
  intro x _
  have hend : bucketAt x.time length < next + length ↔
      bucketAt x.time length < next ∨ bucketAt x.time length = next := by
    obtain ⟨n, rfl⟩ := hn
    obtain ⟨a, ha⟩ := dvd_bucketAt x.time length
    rw [ha, show length * n + length = length * (n + 1) by ring, mul_lt_mul_iff_right₀ hl,
      mul_lt_mul_iff_right₀ hl, Int.mul_eq_mul_left_iff (Int.ne_of_gt hl)]
    omega
  simp only [Bool.and_eq_true, decide_eq_true_eq, hend, bucketAt_of_dvd hn]
  refine ⟨and_or_left, fun h => ?_⟩
  exact absurd h.2.2 (ne_of_lt h.1.2)

/-- what has been written is what was taken into the buckets that have been passed; those from the
next one on are in the window or after it, and hold what was taken into them -/
structure Balanced (r : Run) (c : Config) (written : List FeatureLine)
    (records : List Recorded) : Prop where
  sound : r.gatherer.Sound .eventRate c
  aligned : r.gatherer.length ∣ r.next
  oldest_le : r.gatherer.oldest ≤ r.next
  reflects : r.gatherer.Reflects r.next records
  early : ∀ x ∈ records, ∃ t ∈ r.gatherer.earliest, t ≤ x.time
  positive : ∀ x ∈ records, 0 < x.count
  written_eq : ∀ p, writtenCount r.gatherer.length p written =
    takenBefore r.gatherer.length r.next p records

variable {r : Run} {written : List FeatureLine} {records : List Recorded}

/-- the next bucket is passed once its counts are written -/
theorem Balanced.pass (h : r.Balanced c written records) {g : Gatherer} {lines : List FeatureLine}
    (hg : g.Sound .eventRate c)
    (hstart : g.start = max r.gatherer.start (r.next + r.gatherer.latency * r.gatherer.length))
    (hearliest : g.earliest = r.gatherer.earliest) (hreflects : g.Reflects r.next records)
    (hlines : ∀ p, writtenCount r.gatherer.length p lines =
      Recorded.total (Recorded.isOf p) (recordsAt r.gatherer.length r.next records))
    (tallies : Tallies) :
    Balanced { r with gatherer := g, next := r.next + r.gatherer.length, tallies } c
      (written ++ lines) records := by
  have hpos := h.sound.pos
  have hlength : g.length = r.gatherer.length := hg.length_eq.trans h.sound.length_eq.symm
  have hlatency : g.latency = r.gatherer.latency := hg.latency_eq.trans h.sound.latency_eq.symm
  have hnext : r.next ≤ r.next + r.gatherer.length := by omega
  refine ⟨hg, ?_, ?_, hreflects.mono hnext, ?_, h.positive, fun p => ?_⟩
  · show g.length ∣ r.next + r.gatherer.length
    rw [hlength]
    exact Int.dvd_add h.aligned (Int.dvd_refl _)
  · have hold := h.oldest_le
    show g.oldest ≤ r.next + r.gatherer.length
    unfold Gatherer.oldest at hold ⊢
    rw [hlength, hlatency, hstart]
    omega
  · show ∀ x ∈ records, ∃ t ∈ g.earliest, t ≤ x.time
    rw [hearliest]
    exact h.early
  · show writtenCount g.length p (written ++ lines) =
      takenBefore g.length (r.next + r.gatherer.length) p records
    rw [hlength, takenBefore_add hpos h.aligned, writtenCount_append, h.written_eq, hlines]

/-- the next bucket is in the window when it is sampled, and holds what was taken into it -/
theorem Balanced.bucket?_sample (h : r.Balanced c written records) :
    (r.gatherer.sample r.next).bucket? r.next =
      some ((recordsAt r.gatherer.length r.next records).foldl Aggregates.take ∅) := by
  have hs := h.sound.sample r.next
  have hin : (r.gatherer.sample r.next).counts.ring.contains r.next = true := by
    show ((r.gatherer.advance _ true).counts.sample _).ring.contains r.next = true
    rw [Window.ring_sample]
    exact Gatherer.contains_room h.sound h.aligned h.oldest_le true
  have hfound := (h.reflects.sample h.sound r.next).counts.found r.next hin
  rw [hs.counts.ring.length_eq, ← h.sound.length_eq, bucketAt_of_dvd h.aligned] at hfound
  exact hfound le_rfl

/-- a bucket that no event was taken in before the end of has no records -/
theorem Balanced.recordsAt_eq_nil (h : r.Balanced c written records)
    (hnone : r.gatherer.available r.next = false) :
    recordsAt r.gatherer.length r.next records = [] := by
  apply List.filter_eq_nil_iff.mpr
  intro x hx
  obtain ⟨t, ht, hle⟩ := h.early x hx
  have hlate : ¬bucketAt t r.gatherer.length ≤ r.next := by
    unfold Gatherer.available at hnone
    rw [Option.mem_def.mp ht] at hnone
    simpa using hnone
  have hmono := bucketAt_mono h.sound.pos hle
  rw [bucketAt_of_dvd h.aligned, decide_eq_true_eq]
  omega

theorem Balanced.sampleNext (hf : .countByPair ∈ c.features) (h : r.Balanced c written records) :
    r.sampleNext.2.Balanced c (written ++ r.sampleNext.1) records := by
  unfold Run.sampleNext
  simp only
  split
  next havailable =>
    have hs := h.sound.sample r.next
    have hlength := hs.length_eq.trans h.sound.length_eq.symm
    refine h.pass (hs.release r.next) (Gatherer.start_room h.sound h.aligned true)
      (Gatherer.earliest_advance h.sound _ true)
      ((h.reflects.sample h.sound r.next).release hs le_rfl) (fun p => ?_) _
    rw [← hlength, writtenCount_ending hs hf, h.bucket?_sample, hlength]
    exact Aggregates.getD_counts (fun x hx => h.positive x (List.mem_filter.mp hx).1) p
  next hnone =>
    have hempty := h.recordsAt_eq_nil (Bool.eq_false_iff.mpr hnone)
    refine h.pass (h.sound.skip r.next) (Gatherer.start_room h.sound h.aligned false)
      (Gatherer.earliest_advance h.sound _ false) (h.reflects.advance h.sound _ false)
      (fun p => ?_) _
    rw [hempty]
    rfl

theorem Balanced.sampleTimes (hf : .countByPair ∈ c.features) (n : Nat)
    {lines : Array FeatureLine} (h : r.Balanced c (written ++ lines.toList) records) :
    (sampleTimes n lines r).2.Balanced c (written ++ (sampleTimes n lines r).1.toList) records ∧
      (sampleTimes n lines r).2.next = r.next + n * r.gatherer.length := by
  induction n generalizing lines r with
  | zero => exact ⟨h, by simp [Run.sampleTimes]⟩
  | succ n ih =>
    have hstep : r.sampleNext.2.Balanced c (written ++ (lines ++ r.sampleNext.1).toList) records := by
      simpa using h.sampleNext hf
    have hlength := hstep.sound.length_eq.trans h.sound.length_eq.symm
    obtain ⟨hrest, hnext⟩ := ih hstep
    refine ⟨hrest, hnext.trans ?_⟩
    rw [next_sampleNext, hlength]
    push_cast
    ring

/-- sampling through a bucket leaves the one after it as the next one, unless that was passed -/
theorem Balanced.sampleThrough (hf : .countByPair ∈ c.features)
    (h : r.Balanced c written records) {last : Int} (hlast : r.gatherer.length ∣ last) :
    (r.sampleThrough last).2.Balanced c (written ++ (r.sampleThrough last).1.toList) records ∧
      (r.sampleThrough last).2.next = max r.next (last + r.gatherer.length) := by
  have hbare : r.Balanced c (written ++ (#[] : Array FeatureLine).toList) records := by
    simpa using h
  obtain ⟨hrest, hnext⟩ := hbare.sampleTimes hf (r.pending last)
  exact ⟨hrest, hnext.trans (next_add_pending rfl h.sound.pos h.aligned hlast)⟩

/-! ## taking records -/

/-- an event moves the clock to its time at most, and does not go unnoticed if it is recorded -/
theorem clock_add (hg : g.Sound .eventRate c) {d : Directory} {e : Event} {t : Int}
    (ht : e.time = some t) :
    (g.add d e).2.start ≤ max g.start (bucketAt t g.length) ∧
      (∀ u ∈ g.earliest, ∃ v ∈ (g.add d e).2.earliest, v ≤ u) ∧
      ∀ y ∈ g.recorded? d e, (∃ v ∈ (g.add d e).2.earliest, v ≤ y.time) ∧ 0 < y.count := by
  obtain ⟨pool, bounds, hput⟩ := Gatherer.add_alike hg d e
  have hstart : (g.putAll (g.change? d e).toList).start = (g.add d e).2.start := by rw [hput]
  have hearliest : (g.putAll (g.change? d e).toList).earliest = (g.add d e).2.earliest := by
    rw [hput]
  rw [← hstart, ← hearliest, Gatherer.recorded?_eq]
  cases hx : g.change? d e with
  | none => exact ⟨le_max_left _ _, fun u hu => ⟨u, hu, le_rfl⟩, fun y hy => by cases hy⟩
  | some x =>
    obtain ⟨htime, hrecord⟩ := Gatherer.of_change? hx
    obtain rfl : x.time = t := Option.some.inj (htime.symm.trans ht)
    have hnoted : (g.put x).earliest = some (g.earliest.elim x.time fun e => min e x.time) := rfl
    refine ⟨le_rfl, fun u hu => ⟨_, hnoted, ?_⟩, fun y hy => ?_⟩
    · rw [Option.mem_def.mp hu]
      exact min_le_left _ _
    · obtain ⟨hy, hpos⟩ := hrecord y hy
      refine ⟨⟨_, hnoted, ?_⟩, hpos⟩
      rw [hy]
      cases g.earliest with
      | none => exact le_rfl
      | some u => exact min_le_right _ _

/-- the record that a line of input leaves in a bucket that is still to be sampled -/
def kept? (r : Run) (x : Record) : Option Recorded :=
  (r.recorded? x).filter fun y => r.next ≤ bucketAt y.time r.gatherer.length

theorem of_mem_kept? {x : Record} {y : Recorded} (h : y ∈ (r.kept? x).toList) :
    y ∈ r.recorded? x ∧ r.next ≤ bucketAt y.time r.gatherer.length := by
  obtain ⟨hy, hle⟩ := Option.filter_eq_some_iff.mp (Option.mem_toList.mp h)
  exact ⟨hy, of_decide_eq_true hle⟩

theorem takenBefore_kept? (r : Run) (x : Record) (p : Pair) :
    takenBefore r.gatherer.length r.next p (r.kept? x).toList = 0 := by
  have hnone : (r.kept? x).toList.filter (fun y =>
      y.isOf p && decide (bucketAt y.time r.gatherer.length < r.next)) = [] := by
    apply List.filter_eq_nil_iff.mpr
    intro y hy
    have hle := (of_mem_kept? hy).2
    rw [Bool.and_eq_true, decide_eq_true_eq]
    omega
  unfold takenBefore Recorded.total
  rw [hnone]
  rfl

/-- the buckets that are still to be sampled do not tell whether a record of another one came -/
theorem reflects_kept? (hg : g.Sound .eventRate c) (hl : g.length = r.gatherer.length) {x : Record}
    (h : g.Reflects r.next (records ++ (r.recorded? x).toList)) :
    g.Reflects r.next (records ++ (r.kept? x).toList) := by
  unfold kept?
  cases hr : r.recorded? x with
  | none =>
    rw [hr] at h
    exact h
  | some y =>
    rw [hr] at h
    rw [Option.filter_some]
    split
    · exact h
    next hmissed =>
      rw [Option.toList_none, List.append_nil]
      apply h.leaveOut hg
      rw [hl]
      simpa using hmissed

theorem Balanced.intake (h : r.Balanced c written records) {x : Record} {r' : Run}
    (hnext : bucketAt x.time r.gatherer.length - r.gatherer.latency * r.gatherer.length ≤ r.next)
    (hok : r.intake x = .ok r') : r'.Balanced c written (records ++ (r.kept? x).toList) := by
  obtain ⟨hcursor, ⟨hsame, hnone⟩ | ⟨d, e, ht, hadd, hrecorded⟩⟩ := intake_spec hok
  · unfold kept?
    rw [hnone, Option.filter_none, Option.toList_none, List.append_nil]
    obtain ⟨gatherer, registry, next, tallies⟩ := r'
    obtain rfl : gatherer = r.gatherer := hsame
    obtain rfl : next = r.next := hcursor
    exact ⟨h.sound, h.aligned, h.oldest_le, h.reflects, h.early, h.positive, h.written_eq⟩
  · have hs : r'.gatherer.Sound .eventRate c := hadd ▸ h.sound.add d e
    have hlength : r'.gatherer.length = r.gatherer.length :=
      hs.length_eq.trans h.sound.length_eq.symm
    have hlatency : r'.gatherer.latency = r.gatherer.latency :=
      hs.latency_eq.trans h.sound.latency_eq.symm
    obtain ⟨hstart, hstays, hnoted⟩ := clock_add (d := d) h.sound ht
    have hreflects := h.reflects.add h.sound d e
    rw [← hadd] at hstart hstays hnoted hreflects
    rw [← hrecorded] at hnoted hreflects
    -- the cursor stays where it is, and the clock does not move past the buckets before it
    refine ⟨hs, ?_, ?_, ?_, fun y hy => ?_, fun y hy => ?_, fun p => ?_⟩
    · rw [hlength, hcursor]
      exact h.aligned
    · have hold := h.oldest_le
      unfold Gatherer.oldest at hold ⊢
      rw [hlength, hlatency, hcursor]
      omega
    · rw [hcursor]
      exact reflects_kept? hs hlength hreflects
    · rcases List.mem_append.mp hy with hy | hy
      · obtain ⟨u, hu, hle⟩ := h.early y hy
        obtain ⟨v, hv, hle'⟩ := hstays u hu
        exact ⟨v, hv, hle'.trans hle⟩
      · exact (hnoted y (of_mem_kept? hy).1).1
    · rcases List.mem_append.mp hy with hy | hy
      · exact h.positive y hy
      · exact (hnoted y (of_mem_kept? hy).1).2
    · rw [hlength, hcursor, h.written_eq, takenBefore_append, takenBefore_kept?, Nat.add_zero]

theorem Balanced.ready (hf : .countByPair ∈ c.features) (h : r.Balanced c written records)
    (x : Record) :
    (r.ready x).2.Balanced c (written ++ (r.ready x).1.toList) records ∧
      bucketAt x.time r.gatherer.length - r.gatherer.latency * r.gatherer.length ≤
        (r.ready x).2.next := by
  have hs : r.noting.Balanced c written records :=
    ⟨h.sound, h.aligned, h.oldest_le, h.reflects, h.early, h.positive, h.written_eq⟩
  have hlast : r.noting.gatherer.length ∣
      bucketAt x.time r.gatherer.length - (r.gatherer.latency + 1) * r.gatherer.length :=
    Int.dvd_sub (dvd_bucketAt _ _) (Int.dvd_mul_left _ _)
  obtain ⟨hready, hnext⟩ := hs.sampleThrough hf hlast
  refine ⟨hready, ?_⟩
  have hreached := hnext.symm.le.trans' (le_max_right _ _)
  refine le_trans (le_of_eq ?_) hreached
  show _ = bucketAt x.time r.gatherer.length - (r.gatherer.latency + 1) * r.gatherer.length +
    r.gatherer.length
  ring

end Run

/-! ## arrivals -/

/-- a record that was taken in, and the bucket that was next to be sampled at that time -/
structure Arrival where
  next : Int
  record : Recorded

/-- whether the bucket of the record had been passed -/
def Arrival.isMissed (length : Int) (a : Arrival) : Bool :=
  bucketAt a.record.time length < a.next

/-- what a record leaves behind when it arrives -/
def Run.arrival? (r : Run) (x : Record) : Option Arrival :=
  ((r.ready x).2.recorded? x).map fun y => ⟨(r.ready x).2.next, y⟩

namespace Arrival

/-- the records that came to a bucket that was still to be sampled -/
def kept (length : Int) (as : List Arrival) : List Recorded :=
  (as.filter fun a => !a.isMissed length).map record

/-- the records that came to a bucket that had been passed -/
def missed (length : Int) (as : List Arrival) : List Recorded :=
  (as.filter (isMissed length)).map record

theorem total_kept_add_missed (length : Int) (chosen : Recorded → Bool) (as : List Arrival) :
    Recorded.total chosen (kept length as) + Recorded.total chosen (missed length as) =
      Recorded.total chosen (as.map record) := by
  unfold kept missed
  induction as with
  | nil => rfl
  | cons a as ih =>
    rw [List.filter_cons, List.filter_cons, List.map_cons, Recorded.total_cons]
    by_cases h : a.isMissed length = true
    · simp only [h, Bool.not_true, Bool.false_eq_true, if_false, if_true, List.map_cons,
        Recorded.total_cons]
      omega
    · simp only [h, Bool.not_false, Bool.false_eq_true, if_false, if_true, List.map_cons,
        Recorded.total_cons]
      omega

theorem kept_append (length : Int) (as bs : List Arrival) :
    kept length (as ++ bs) = kept length as ++ kept length bs := by
  simp [kept]

theorem kept_toList (r : Run) (x : Record) (hl : (r.ready x).2.gatherer.length = length) :
    kept length (r.arrival? x).toList = ((r.ready x).2.kept? x).toList := by
  unfold kept Run.arrival? Run.kept? isMissed
  cases (r.ready x).2.recorded? x with
  | none => rfl
  | some y =>
    rw [hl, Option.filter_some, Option.map_some, Option.toList_some]
    by_cases h : bucketAt y.time length < (r.ready x).2.next
    · have hle : ¬(r.ready x).2.next ≤ bucketAt y.time length := Int.not_le.mpr h
      simp [h, hle]
    · have hle : (r.ready x).2.next ≤ bucketAt y.time length := Int.not_lt.mp h
      simp [h, hle]

end Arrival

/-! ## replays -/

namespace Replay
variable {r r' : Replay} {c : Config} {written : List FeatureLine} {records : List Recorded}

/-- the records that a replay takes in, up to a failure -/
def arrivals (r : Replay) : List Record → List Arrival
  | [] => []
  | x :: xs =>
    match r.begun x.time with
    | .error _ => []
    | .ok run =>
      (run.arrival? x).toList ++
        match r.feed x with
        | (_, .ok r) => r.arrivals xs
        | (_, .error _) => []

/-- a replay whose run is balanced, or that has seen no record yet -/
structure Balanced (r : Replay) (c : Config) (written : List FeatureLine)
    (records : List Recorded) : Prop where
  kind_eq : r.kind = .eventRate
  config_eq : r.config = c
  unbegun : r.run = none → written = [] ∧ records = []
  run : ∀ run ∈ r.run, run.Balanced c written records

theorem balanced_start (hs : c.bucketLength.secs.toNat < 2 ^ 63) {time : Int} {run : Run}
    (h : Run.start .eventRate c time = .ok run) : run.Balanced c [] [] := by
  unfold Run.start at h
  split at h
  next g hg =>
    obtain rfl := Except.ok.inj h
    have hsound := Gatherer.sound_new hs hg
    have hnn : 0 ≤ (g.latency : Int) * g.length :=
      Int.mul_nonneg (Int.natCast_nonneg _) hsound.pos.le
    refine ⟨hsound, hsound.aligned, ?_, Gatherer.reflects_new hs hg,
      fun x hx => (List.not_mem_nil hx).elim, fun x hx => (List.not_mem_nil hx).elim,
      fun p => rfl⟩
    show g.start - g.latency * g.length ≤ g.start
    omega
  · cases h

theorem balanced_new (h : Replay.new .eventRate c = .ok r) : r.Balanced c [] [] := by
  obtain ⟨-, rfl⟩ := of_new h
  exact ⟨rfl, rfl, fun _ => ⟨rfl, rfl⟩, fun run hrun => by cases hrun⟩

/-- the run that a record finds is balanced -/
theorem Balanced.begun (hs : c.bucketLength.secs.toNat < 2 ^ 63)
    (h : r.Balanced c written records) {time : Int} {run : Run}
    (hrun : r.begun time = .ok run) : run.Balanced c written records := by
  unfold Replay.begun at hrun
  split at hrun
  next hsome =>
    obtain rfl := Except.ok.inj hrun
    exact h.run _ hsome
  next hnone =>
    obtain ⟨rfl, rfl⟩ := h.unbegun hnone
    rw [h.kind_eq, h.config_eq] at hrun
    exact balanced_start hs hrun

theorem Balanced.feed (hs : c.bucketLength.secs.toNat < 2 ^ 63) (hf : .countByPair ∈ c.features)
    (h : r.Balanced c written records) {x : Record} {lines : Array FeatureLine}
    (hok : r.feed x = (lines, .ok r')) :
    ∃ run, r.begun x.time = .ok run ∧ r'.Balanced c (written ++ lines.toList)
      (records ++ Arrival.kept c.bucketSeconds (run.arrival? x).toList) := by
  unfold Replay.feed at hok
  split at hok
  · cases hok
  next run hrun =>
    refine ⟨run, hrun, ?_⟩
    obtain ⟨hready, hnext⟩ := (h.begun hs hrun).ready hf x
    have hlength := hready.sound.length_eq.trans (h.begun hs hrun).sound.length_eq.symm
    have hlatency := hready.sound.latency_eq.trans (h.begun hs hrun).sound.latency_eq.symm
    rw [Run.feed_eq] at hok
    split at hok
    next lines' run' heq =>
      obtain ⟨rfl, hintake⟩ := Prod.mk.inj heq
      obtain ⟨rfl, hr⟩ := Prod.mk.inj hok
      obtain rfl := Except.ok.inj hr
      rw [← hlength, ← hlatency] at hnext
      rw [Arrival.kept_toList run x hready.sound.length_eq]
      refine ⟨h.kind_eq, h.config_eq, nofun, fun run'' hrun'' => ?_⟩
      obtain rfl := Option.some.inj hrun''
      exact hready.intake hnext hintake
    · cases hok

theorem Balanced.feedAll (hs : c.bucketLength.secs.toNat < 2 ^ 63)
    (hf : .countByPair ∈ c.features) {xs : List Record} {before lines : Array FeatureLine}
    (h : r.Balanced c before.toList records) (hok : feedAll before r xs = (lines, .ok r')) :
    r'.Balanced c lines.toList
      (records ++ Arrival.kept c.bucketSeconds (r.arrivals xs)) := by
  induction xs generalizing r records before with
  | nil =>
    obtain ⟨rfl, hr⟩ := Prod.mk.inj hok
    obtain rfl := Except.ok.inj hr
    simpa [arrivals, Arrival.kept] using h
  | cons x xs ih =>
    unfold Replay.feedAll at hok
    split at hok
    next lines' r₁ hfeed =>
      obtain ⟨run, hrun, hnext⟩ := h.feed hs hf hfeed
      unfold arrivals
      rw [hrun, hfeed]
      simp only
      rw [Arrival.kept_append, ← List.append_assoc]
      refine ih ?_ hok
      rw [Array.toList_append]
      exact hnext
    · cases hok

theorem pos_of_mem_arrivals {xs : List Record} {a : Arrival} (h : a ∈ r.arrivals xs) :
    0 < a.record.count := by
  induction xs generalizing r with
  | nil => cases h
  | cons x xs ih =>
    unfold arrivals at h
    split at h
    · cases h
    next run hrun =>
      rcases List.mem_append.mp h with h | h
      · obtain ⟨y, hy, rfl⟩ := Option.map_eq_some_iff.mp (Option.mem_toList.mp h)
        obtain ⟨e, -, hy⟩ := Option.bind_eq_some_iff.mp hy
        exact Gatherer.pos_of_recorded? hy
      · split at h
        · exact ih h
        · cases h

/-- at the end the counts that were taken into buckets still to be sampled are written -/
theorem Balanced.finish (hf : .countByPair ∈ c.features) (h : r.Balanced c written records)
    (p : Pair) : writtenCount c.bucketSeconds p (written ++ r.finish.1.toList) =
      Recorded.total (Recorded.isOf p) records := by
  unfold Replay.finish
  cases hrun : r.run with
  | none =>
    obtain ⟨rfl, rfl⟩ := h.unbegun hrun
    rfl
  | some run =>
    have hb := h.run run hrun
    obtain ⟨hdrained, hnext⟩ := hb.sampleThrough hf hb.sound.aligned
    have hall : ∀ x ∈ records, bucketAt x.time c.bucketSeconds <
        (run.sampleThrough run.gatherer.start).2.next := by
      intro x hx
      have hpast := hb.reflects.counts.past x hx
      rw [hb.sound.counts.ring.length_eq, hb.sound.counts.ring.newest_eq] at hpast
      have hpos := hb.sound.pos
      have hreached := hnext.symm.le.trans' (le_max_right _ _)
      exact lt_of_le_of_lt hpast (lt_of_lt_of_le (by omega) hreached)
    have hwritten := hdrained.written_eq p
    rw [hdrained.sound.length_eq] at hwritten
    apply hwritten.trans
    unfold Run.takenBefore Recorded.total
    congr 2
    apply List.filter_congr
    intro x hx
    rw [decide_eq_true (hall x hx), Bool.and_true]

/-- the counts that a replay writes of the single buckets, and those that came to a bucket that had
been passed, are the counts of all records that were taken in; so all of them are written if and
only if no record of the pair came to a bucket that had been passed -/
theorem counts_balance (hs : c.bucketLength.secs.toNat < 2 ^ 63) (hf : .countByPair ∈ c.features)
    (hnew : Replay.new .eventRate c = .ok r) {xs : List Record} {lines : Array FeatureLine}
    (hok : feedAll #[] r xs = (lines, .ok r')) (p : Pair) :
    writtenCount c.bucketSeconds p (lines ++ r'.finish.1).toList +
        Recorded.total (Recorded.isOf p) (Arrival.missed c.bucketSeconds (r.arrivals xs)) =
      Recorded.total (Recorded.isOf p) ((r.arrivals xs).map Arrival.record) ∧
    (writtenCount c.bucketSeconds p (lines ++ r'.finish.1).toList =
        Recorded.total (Recorded.isOf p) ((r.arrivals xs).map Arrival.record) ↔
      ∀ a ∈ r.arrivals xs, a.isMissed c.bucketSeconds = true → a.record.isOf p = false) := by
  have hbefore : r.Balanced c (#[] : Array FeatureLine).toList [] := balanced_new hnew
  have hend := hbefore.feedAll hs hf hok
  have hwritten := hend.finish hf p
  rw [List.nil_append, ← Array.toList_append] at hwritten
  have hsplit := Arrival.total_kept_add_missed c.bucketSeconds (Recorded.isOf p) (r.arrivals xs)
  have hpos : ∀ x ∈ Arrival.missed c.bucketSeconds (r.arrivals xs), 0 < x.count := by
    intro x hx
    obtain ⟨a, ha, rfl⟩ := List.mem_map.mp hx
    exact pos_of_mem_arrivals (List.mem_filter.mp ha).1
  have hsome : 0 < Recorded.total (Recorded.isOf p) (Arrival.missed c.bucketSeconds (r.arrivals xs)) ↔
      ∃ x ∈ Arrival.missed c.bucketSeconds (r.arrivals xs), x.isOf p = true :=
    Recorded.total_pos hpos
  rw [hwritten]
  refine ⟨hsplit, fun heq a ha hmissed => ?_, fun hnone => ?_⟩
  · by_contra hof
    have hmem : a.record ∈ Arrival.missed c.bucketSeconds (r.arrivals xs) :=
      List.mem_map_of_mem (List.mem_filter.mpr ⟨ha, hmissed⟩)
    have := hsome.mpr ⟨a.record, hmem, Bool.eq_true_of_not_eq_false hof⟩
    omega
  · by_contra hne
    have hmissed : 0 < Recorded.total (Recorded.isOf p)
        (Arrival.missed c.bucketSeconds (r.arrivals xs)) := by omega
    obtain ⟨x, hx, hof⟩ := hsome.mp hmissed
    obtain ⟨a, ha, rfl⟩ := List.mem_map.mp hx
    obtain ⟨ha, hm⟩ := List.mem_filter.mp ha
    rw [hnone a ha hm] at hof
    cases hof

/-- the second record is in time, but its bucket lies before the one that the run began with -/
theorem counts_balance_before_start :
    let c : Config :=
      { Config.default with bucketLength := .ofSecs 60, latencyBuckets := 1, features := [.countByPair] }
    let r : Replay := ⟨.eventRate, c, none⟩
    let xs : List Record :=
      [⟨60, some "alice", some "login", none, [], some 1, none, [], false⟩,
       ⟨0, some "alice", some "login", none, [], some 1, none, [], false⟩]
    ∃ lines r', feedAll #[] r xs = (lines, .ok r') ∧
      writtenCount c.bucketSeconds ⟨0, 0⟩ (lines ++ r'.finish.1).toList = 1 ∧
      Recorded.total (Recorded.isOf ⟨0, 0⟩) ((r.arrivals xs).map Arrival.record) = 2 := by
  intro c r xs
  have hnew : Replay.new .eventRate c = .ok r := by
    unfold Replay.new
    rw [show c.fault? .eventRate = none by decide]
  obtain ⟨r', hr'⟩ : ∃ r', (feedAll #[] r xs).2 = .ok r' := by
    have hok : (feedAll #[] r xs).2.isOk = true := by
      simp only [r, c, xs]
      cbv
    cases hend : (feedAll #[] r xs).2 with
    | ok r' => exact ⟨r', rfl⟩
    | error e =>
      rw [hend] at hok
      cases hok
  have hfeed : feedAll #[] r xs = ((feedAll #[] r xs).1, .ok r') := by
    rw [← hr']
  obtain ⟨hbalance, -⟩ := counts_balance (by decide) (by decide) hnew hfeed ⟨0, 0⟩
  have hmissed : Recorded.total (Recorded.isOf ⟨0, 0⟩)
      (Arrival.missed c.bucketSeconds (r.arrivals xs)) = 1 := by
    simp only [r, c, xs]
    cbv
  have hall : Recorded.total (Recorded.isOf ⟨0, 0⟩) ((r.arrivals xs).map Arrival.record) = 2 := by
    simp only [r, c, xs]
    cbv
  exact ⟨_, r', hfeed, by omega, hall⟩

end Replay

end EventBuckets
