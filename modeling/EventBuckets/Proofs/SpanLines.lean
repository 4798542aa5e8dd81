import EventBuckets.Proofs.Conservation
import EventBuckets.Proofs.Lines
import EventBuckets.Proofs.OpenSpans

/-!
# The lines of spans

A span is written with its last bucket, after the lines of that bucket, and counts what the lines of
its buckets have counted.

* `linesWithin`            the lines of intervals that start within an interval;
* `Gatherer.spanCount`     the count of a pair in an open span;
* `Run.SpansWritten`       an open span counts what has been written of its buckets, and no span of
                           buckets still to come is open;
* `SpansWritten.sampleNext`
                           the next bucket is written, and merged into its span;
* `Along.countOf_eq`       the line of a span counts what is written of its buckets;
* `Along.exists_mem`       no span with counts is left out;
* `Replay.span_lines_add_up`
                           so it is in a replay, where the lines of a bucket come before those of
                           its spans.
-/

set_option linter.unusedSectionVars false

namespace EventBuckets

/-! ## counts -/

theorem Aggregates.getD_merge (a b : Aggregates) (p : Pair) :
    (merge a b).counts[p]?.getD 0 = a.counts[p]?.getD 0 + b.counts[p]?.getD 0 := by
  show (b.counts.foldl addPositive a.counts)[p]?.getD 0 = _
  rw [getElem?_foldl_addPositive]
  cases b.counts[p]? with
  | none => rfl
  | some n =>
    rcases Nat.eq_zero_or_pos n with rfl | hpos
    · simp
    · simp [hpos]

theorem countOf_pairCounts (m : PairMap Nat) (p : Pair) :
    Readout.countOf p (.pairCounts m.toList) = m[p]?.getD 0 := sum_filter_toList m p

/-- the lines of intervals that start from `start` on and before `stop` -/
def linesWithin (start stop : Int) (lines : List FeatureLine) : List FeatureLine :=
  lines.filter fun l => decide (start ≤ l.start ∧ l.start < stop)

section
variable {length start stop : Int} {p : Pair} {ls ls' : List FeatureLine}

theorem linesWithin_append : linesWithin start stop (ls ++ ls') =
    linesWithin start stop ls ++ linesWithin start stop ls' := List.filter_append ..

theorem writtenCount_linesWithin_of_le
    (h : ∀ l ∈ ls, l.length = length → l.start < start ∨ stop ≤ l.start) :
    writtenCount length p (linesWithin start stop ls) = 0 := by
  unfold writtenCount linesWithin
  rw [List.filter_filter, List.filter_eq_nil_iff.mpr]
  · rfl
  · intro l hl hchosen
    simp only [Bool.and_eq_true, decide_eq_true_eq] at hchosen
    obtain ⟨⟨hlength, -⟩, hin⟩ := hchosen
    rcases h l hl hlength with hlt | hle
    · omega
    · omega

/-- what lines of one bucket write within an interval -/
theorem writtenCount_linesWithin {next : Int} (h : ∀ l ∈ ls, l.length = length → l.start = next) :
    writtenCount length p (linesWithin start stop ls) =
      if start ≤ next ∧ next < stop then writtenCount length p ls else 0 := by
  split
  next hin =>
    unfold writtenCount linesWithin
    rw [List.filter_filter]
    congr 2
    apply List.filter_congr
    intro l hl
    by_cases hlength : l.length = length
    · simp [h l hl hlength, hin]
    · simp [hlength]
  next hout =>
    apply writtenCount_linesWithin_of_le
    intro l hl hlength
    rw [h l hl hlength]
    omega

end

/-! ## open spans -/

namespace Gatherer
variable {g h : Gatherer} {c : Config} {span start : Int} {p : Pair}

/-- the count of a pair in the span from `start` on, if it is open -/
def spanCount (g : Gatherer) (span start : Int) (p : Pair) : Nat :=
  ((g.counts.spans.get? span start).map fun a => a.counts[p]?.getD 0).getD 0

theorem spanCount_of_start? (hs : span ∣ start)
    (h : g.counts.spans.start? span ≠ some start) : g.spanCount span start p = 0 := by
  unfold spanCount
  rw [Spans.get?_eq_none_of_start? (by rwa [bucketAt_of_dvd hs])]
  rfl

/-- a bucket that is sampled adds to the span it falls into, if that is not before the open one -/
theorem spanCount_sample (hg : g.Sound .eventRate c) {t : Int} (ht : g.length ∣ t)
    (hspan : span ∈ c.spanSeconds) (hs : span ∣ start) (hle : bucketAt t span ≤ start)
    (hopen : ∀ first, g.counts.spans.start? span = some first → first ≤ bucketAt t span)
    (p : Pair) : (g.sample t).spanCount span start p = g.spanCount span start p +
      if bucketAt t span = start then
        (((g.sample t).bucket? t).map fun b => b.counts[p]?.getD 0).getD 0
      else 0 := by
  have hsame : (g.advance (g.lastCall t) true).counts.spans = g.counts.spans :=
    (sameSpans_advance hg (g.lastCall t) true).1
  have hsample : (g.sample t).counts = (g.advance (g.lastCall t) true).counts.sample t := by
    have hlength : (g.advance (g.lastCall t) true).length = g.length :=
      (hg.advance (g.lastCall t) true).length_eq.trans hg.length_eq.symm
    show (g.advance (g.lastCall t) true).counts.sample (bucketAt t _) = _
    rw [hlength, bucketAt_of_dvd ht]
  have hbucket : (g.sample t).bucket? t = (g.advance (g.lastCall t) true).counts.ring.get? t := by
    unfold bucket?
    rw [hsample, Window.ring_sample]
  unfold spanCount
  rw [hbucket, hsample]
  unfold Window.sample
  cases (g.advance (g.lastCall t) true).counts.ring.get? t with
  | none =>
    rw [hsame, Option.map_none, Option.getD_none, ite_self]
    rfl
  | some bucket =>
    simp only [hsame]
    rcases hle.lt_or_eq with hlt | heq
    · rw [Spans.get?_sample_of_lt hs hlt, if_neg hlt.ne, Nat.add_zero]
    · subst heq
      have hpresent := (hg.counts.spans span).mpr hspan
      have hmerged := Spans.get?_sample hpresent hopen bucket
      have hat (s : Spans Aggregates) : s.get? span (bucketAt t span) = s.get? span t := by
        unfold Spans.get?
        rw [bucketAt_bucketAt]
      rw [hat, hat, hmerged, if_pos rfl, Option.map_some, Option.map_some, Option.getD_some,
        Option.getD_some, Aggregates.getD_merge]
      cases g.counts.spans.get? span t with
      | none => simp
      | some a => rfl

end Gatherer

/-! ## lines -/

namespace Run
variable {r r' : Run} {c : Config} {first span start t : Int} {seen : List Run} {p : Pair}
  {l : FeatureLine}

/-- a span is a longer multiple of a bucket -/
theorem span_spec {kind : SeriesKind} (hv : c.fault? kind = none)
    (hspans : ∀ d ∈ c.multiBucketLengths, d.secs.toNat < 2 ^ 63) (h : span ∈ c.spanSeconds) :
    c.bucketSeconds < span ∧ c.bucketSeconds ∣ span := by
  obtain ⟨d, hd, rfl⟩ := List.mem_map.mp h
  have hs := hspans d hd
  exact ⟨Config.lt_span_of_valid hv hd hs, (Config.span_of_valid hv hd hs).2⟩

/-- an open span counts what has been written of its buckets, and it started before the next one -/
structure SpansWritten (c : Config) (r : Run) (seen : List Run) : Prop where
  counts : ∀ span ∈ c.spanSeconds, ∀ start, span ∣ start → r.next ≤ start + span → ∀ p,
    r.gatherer.spanCount span start p =
      writtenCount c.bucketSeconds p (linesWithin start (start + span) (writtenBy seen))
  starts : ∀ span ∈ c.spanSeconds, ∀ first, r.gatherer.counts.spans.start? span = some first →
    span ∣ first ∧ first < r.next

/-- once the next bucket is sampled, a span that has not ended before counts its lines too -/
theorem SpansWritten.spanCount_passNext (h : SpansWritten c r seen)
    (hon : r.OnTime .eventRate c first seen (writtenBy seen)) (hf : .countByPair ∈ c.features)
    (hspans : ∀ d ∈ c.multiBucketLengths, d.secs.toNat < 2 ^ 63)
    (havailable : r.gatherer.available r.next = true) (hspan : span ∈ c.spanSeconds)
    (hs : span ∣ start) (hopen : r.next + c.bucketSeconds ≤ start + span) (p : Pair) :
    r.passNext.spanCount span start p =
      writtenCount c.bucketSeconds p
        (linesWithin start (start + span) (writtenBy seen ++ r.sampleNext.1)) := by
  have hpos := hon.sound.counts.ring.pos
  obtain ⟨hlt, hdvd⟩ := span_spec hon.sound.valid hspans hspan
  have hle : bucketAt r.next span ≤ start := bucketAt_le_of_lt (by omega) hs (by omega)
  have hpass : r.passNext = r.gatherer.sample r.next := if_pos havailable
  have hsample := Gatherer.spanCount_sample hon.sound (hon.sound.length_eq ▸ hon.aligned) hspan hs
    hle (fun first hfirst => by
      obtain ⟨hfirst, hbefore⟩ := h.starts span hspan first hfirst
      exact le_bucketAt (by omega) hfirst hbefore.le) p
  -- the single bucket is written with what the span is given
  have hsound := hon.sound.sample r.next
  have hwritten : writtenCount c.bucketSeconds p r.sampleNext.1 =
      (((r.gatherer.sample r.next).bucket? r.next).map fun b => b.counts[p]?.getD 0).getD 0 := by
    rw [lines_sampleNext, if_pos havailable, hpass, ← hsound.length_eq]
    exact writtenCount_ending hsound hf r.next
  have hstart : ∀ l ∈ r.sampleNext.1, l.length = c.bucketSeconds → l.start = r.next := by
    intro l hl hlength
    rw [hon.next_of_mem hl, hlength, Int.neg_emod_self, Int.add_zero]
  have hin : bucketAt r.next span = start ↔ start ≤ r.next ∧ r.next < start + span := by
    constructor
    · rintro rfl
      exact ⟨bucketAt_le _ (by omega), lt_bucketAfter _ (by omega)⟩
    · exact fun ⟨hle, hlt⟩ => bucketAt_eq_of_mem hs hle hlt
  rw [hpass, hsample, h.counts span hspan start hs (by omega), linesWithin_append,
    writtenCount_append, writtenCount_linesWithin hstart, hwritten]
  simp only [hin]

theorem spansWritten_start {time : Int} (h : Run.start .eventRate c time = .ok r) :
    SpansWritten c r [] := by
  unfold Run.start at h
  split at h
  next g hg =>
    obtain rfl := Except.ok.inj h
    rw [Gatherer.new_eq (Gatherer.valid_of_new hg)] at hg
    obtain rfl := Except.ok.inj hg
    have hnone (span : Int) : (Spans.new c.spanSeconds : Spans Aggregates).start? span = none :=
      Spans.start?_new c.spanSeconds span
    refine ⟨fun span _ start hs _ p => ?_, fun span _ first hfirst => ?_⟩
    · exact Gatherer.spanCount_of_start? hs (by
        show (Spans.new c.spanSeconds : Spans Aggregates).start? span ≠ _
        rw [hnone]
        nofun)
    · have hfirst : (Spans.new c.spanSeconds : Spans Aggregates).start? span = some first := hfirst
      rw [hnone] at hfirst
      cases hfirst
  · cases h

/-- a span is not open before its first bucket is next -/
theorem SpansWritten.of_start?_passNext (h : SpansWritten c r seen)
    (hon : r.OnTime .eventRate c first seen (writtenBy seen))
    (hspans : ∀ d ∈ c.multiBucketLengths, d.secs.toNat < 2 ^ 63) (hspan : span ∈ c.spanSeconds)
    (hstart : r.passNext.counts.spans.start? span = some start) :
    span ∣ start ∧ start < r.next + c.bucketSeconds := by
  have hpos := hon.sound.counts.ring.pos
  obtain ⟨hlt, -⟩ := span_spec hon.sound.valid hspans hspan
  have hle : bucketAt r.next span ≤ r.next := bucketAt_le _ (by omega)
  have hold {old : Int} (hold : r.gatherer.counts.spans.start? span = some old) :
      span ∣ old ∧ old < r.next + c.bucketSeconds := by
    obtain ⟨hdvd, hbefore⟩ := h.starts span hspan old hold
    exact ⟨hdvd, by omega⟩
  unfold passNext at hstart
  split at hstart
  · have hadvanced := hon.sound.advance (r.gatherer.lastCall r.next) true
    have hsame := (Gatherer.sameSpans_advance hon.sound (r.gatherer.lastCall r.next) true).1
    have hstart : Spans.start? ((r.gatherer.advance (r.gatherer.lastCall r.next) true).counts.sample
        (bucketAt r.next (r.gatherer.advance (r.gatherer.lastCall r.next) true).length)).spans
          span = some start := hstart
    rw [hadvanced.length_eq, bucketAt_of_dvd hon.aligned, hadvanced.counts.start?_sample, hsame]
      at hstart
    split at hstart
    · obtain rfl := Option.some.inj hstart
      unfold Spans.laterStart
      cases hopen : r.gatherer.counts.spans.start? span with
      | none => exact ⟨dvd_bucketAt _ _, by simp only [Option.elim_none]; omega⟩
      | some old =>
        rw [Option.elim_some]
        rcases max_choice (bucketAt r.next span) old with hmax | hmax
        · rw [hmax]
          exact ⟨dvd_bucketAt _ _, by omega⟩
        · rw [hmax]
          exact hold hopen
    · exact hold hstart
  · have hsame := (Gatherer.sameSpans_advance hon.sound (r.gatherer.lastCall r.next) false).1
    exact hold (hsame ▸ hstart)

/-- the next bucket is written, and merged into the spans it falls into -/
theorem SpansWritten.sampleNext (h : SpansWritten c r seen)
    (hon : r.OnTime .eventRate c first seen (writtenBy seen)) (hf : .countByPair ∈ c.features)
    (hspans : ∀ d ∈ c.multiBucketLengths, d.secs.toNat < 2 ^ 63) :
    SpansWritten c r.sampleNext.2 (seen ++ [r]) := by
  have hpos := hon.sound.counts.ring.pos
  have hnext : r.sampleNext.2.next = r.next + c.bucketSeconds := by
    rw [next_sampleNext, hon.sound.length_eq]
  refine ⟨fun span hspan start hs hopen p => ?_, fun span hspan first hfirst => ?_⟩
  · rw [hnext] at hopen
    rw [writtenBy_concat, gatherer_sampleNext]
    split
    next havailable =>
      have hstays : ¬bucketAfter start span ≤ r.next := by
        unfold bucketAfter
        rw [bucketAt_of_dvd hs]
        omega
      rw [← h.spanCount_passNext hon hf hspans havailable hspan hs hopen]
      unfold Gatherer.spanCount
      rw [show (r.passNext.release r.next).2.counts.spans =
        (r.passNext.counts.spans.release r.next).1 from rfl, Spans.get?_release, if_neg hstays]
    next hskipped =>
      have hsame : r.passNext.counts.spans = r.gatherer.counts.spans := by
        unfold passNext
        rw [if_neg hskipped]
        exact (Gatherer.sameSpans_advance hon.sound _ false).1
      rw [lines_sampleNext, if_neg hskipped, List.append_nil,
        ← h.counts span hspan start hs (by omega)]
      unfold Gatherer.spanCount
      rw [hsame]
  · rw [hnext]
    rw [gatherer_sampleNext] at hfirst
    split at hfirst
    · rw [show (r.passNext.release r.next).2.counts.spans =
        (r.passNext.counts.spans.release r.next).1 from rfl, Spans.start?_release] at hfirst
      exact h.of_start?_passNext hon hspans hspan (Option.filter_eq_some_iff.mp hfirst).1
    · exact h.of_start?_passNext hon hspans hspan hfirst

theorem keeps_spansWritten (hf : .countByPair ∈ c.features)
    (hspans : ∀ d ∈ c.multiBucketLengths, d.secs.toNat < 2 ^ 63) :
    Keeps .eventRate c (SpansWritten c) where
  sampleNext hon h := h.sampleNext hon hf hspans
  noting h := ⟨h.counts, h.starts⟩
  intake hs h hok := by
    obtain ⟨hnext, ⟨hsame, -⟩ | ⟨d, e, -, hadd, -⟩⟩ := intake_spec hok
    · refine ⟨fun span hspan start => ?_, fun span hspan first => ?_⟩
      · rw [hnext, hsame]
        exact h.counts span hspan start
      · rw [hnext, hsame]
        exact h.starts span hspan first
    · have hspans := (Gatherer.sameSpans_add hs d e).1
      refine ⟨fun span hspan start => ?_, fun span hspan first => ?_⟩
      · rw [hnext, hadd]
        unfold Gatherer.spanCount
        rw [hspans]
        exact h.counts span hspan start
      · rw [hnext, hadd, hspans]
        exact h.starts span hspan first

/-! ## the lines of a bucket -/

section
variable {kind : SeriesKind} {written : List FeatureLine} {g : Gatherer}

/-- the interval of a line ends with the bucket that it was written with -/
theorem OnTime.stop_of_mem (h : r.OnTime kind c first seen written)
    (hspans : ∀ d ∈ c.multiBucketLengths, d.secs.toNat < 2 ^ 63) (hl : l ∈ r.sampleNext.1) :
    l.stop = r.next + c.bucketSeconds := by
  have hpos := h.sound.counts.ring.pos
  have hs := sound_passNext h.sound
  obtain ⟨-, hmem, hlength, hend⟩ := h.ending_of_mem hl
  have hle : c.bucketSeconds ≤ l.length := by
    unfold lengthsEnding at hlength
    rw [hs.length_eq, hs.config_eq] at hlength
    rcases List.mem_cons.mp hlength with heq | hspan
    · exact heq.ge
    · exact (span_spec h.sound.valid hspans (List.mem_filter.mp hspan).1).1.le
  have hstart : bucketAt r.next l.length = r.next + c.bucketSeconds - l.length :=
    bucketAt_eq_of_mem (Int.dvd_sub hend (Int.dvd_refl _)) (by omega) (by omega)
  unfold FeatureLine.stop
  rw [(of_mem_linesOf hmem).1, hstart]
  omega

theorem spanCount_bucketAt (hlength : length ≠ c.bucketSeconds) (hg : g.Sound kind c) (t : Int) :
    g.spanCount length (bucketAt t length) p =
      ((g.counts.get? t length).map fun a => a.counts[p]?.getD 0).getD 0 := by
  unfold Gatherer.spanCount Window.get? Spans.get?
  rw [if_neg (hg.counts.ring.length_eq ▸ hlength), bucketAt_bucketAt]

/-- the line of a span says what the open span counts -/
theorem countOf_of_mem_linesOf (hg : g.Sound .eventRate c) (hl : l ∈ linesOf g t l.length)
    (hlength : l.length ≠ c.bucketSeconds) (hf : l.feature = .countByPair) (p : Pair) :
    l.values.countOf p = g.spanCount l.length l.start p := by
  obtain ⟨hstart, -, hread⟩ := of_mem_linesOf hl
  obtain ⟨o, ho, -⟩ := hg.series.exists_occurrences
  rw [hstart, spanCount_bucketAt hlength hg]
  unfold Gatherer.readouts at hread
  split at hread
  next a ha =>
    obtain ⟨f, -, hvalues⟩ := List.mem_filterMap.mp hread
    obtain ⟨values, hvalues, heq⟩ := Option.map_eq_some_iff.mp hvalues
    obtain ⟨rfl, rfl⟩ := Prod.mk.inj heq
    rw [ho, hf] at hvalues
    rw [ha, Option.map_some, Option.getD_some, ← Option.some.inj hvalues]
    exact countOf_pairCounts a.counts p
  · cases hread

/-- a span that counts anything has a line -/
theorem exists_mem_linesOf (hg : g.Sound .eventRate c) (hf : .countByPair ∈ c.features)
    (hlength : span ≠ c.bucketSeconds) (hpos : 0 < g.spanCount span (bucketAt t span) p) :
    ∃ values, ⟨bucketAt t span, span, .countByPair, values⟩ ∈ linesOf g t span := by
  obtain ⟨o, ho, -⟩ := hg.series.exists_occurrences
  rw [spanCount_bucketAt hlength hg] at hpos
  cases ha : g.counts.get? t span with
  | none =>
    rw [ha] at hpos
    cases hpos
  | some a =>
    rw [ha, Option.map_some, Option.getD_some, ← countOf_pairCounts] at hpos
    have hnonempty : Readout.isEmpty (.pairCounts a.counts.toList) = false := by
      show a.counts.toList.isEmpty = false
      cases hlist : a.counts.toList with
      | nil =>
        rw [hlist] at hpos
        cases hpos
      | cons _ _ => rfl
    refine ⟨.pairCounts a.counts.toList, List.mem_map.mpr
      ⟨(.countByPair, .pairCounts a.counts.toList),
        List.mem_filter.mpr ⟨?_, by simp [hnonempty]⟩, rfl⟩⟩
    unfold Gatherer.readouts
    rw [ha, ho]
    have hfeature : Feature.countByPair ∈ g.features :=
      List.count_pos_iff.mp (by rw [count_features hg hf]; exact Nat.one_pos)
    exact List.mem_filterMap.mpr ⟨.countByPair, hfeature, rfl⟩

end

end Run

/-! ## all lines -/

/-- a line is written before another: the interval of the other ends in a later bucket, or in the
same one, where single buckets come first -/
def FeatureLine.Precedes (length : Int) (x y : FeatureLine) : Prop :=
  x.stop + length ≤ y.stop ∨ x.stop = y.stop ∧ (y.length = length → x.length = length)

theorem FeatureLine.Precedes.stop_le {length : Int} (hpos : 0 < length) {x y : FeatureLine}
    (h : x.Precedes length y) : x.stop ≤ y.stop := by
  rcases h with hlater | ⟨hsame, -⟩
  · omega
  · exact hsame.le

namespace Run
variable {v : Run} {vs us : List Run} {c : Config} {kind : SeriesKind} {first span start : Int}
  {seen : List Run} {p : Pair} {l : FeatureLine} {written : List FeatureLine}
  {Q : Run → List Run → Prop}

/-- the lines of a bucket come before those of its spans -/
theorem OnTime.pairwise_lines (h : v.OnTime kind c first seen written)
    (hspans : ∀ d ∈ c.multiBucketLengths, d.secs.toNat < 2 ^ 63) :
    v.sampleNext.1.Pairwise (FeatureLine.Precedes c.bucketSeconds) := by
  have hs := sound_passNext h.sound
  have hstop {x y : FeatureLine} (hx : x ∈ v.sampleNext.1) (hy : y ∈ v.sampleNext.1) :
      x.stop = y.stop := (h.stop_of_mem hspans hx).trans (h.stop_of_mem hspans hy).symm
  suffices hlengths : v.sampleNext.1.Pairwise
      fun x y => y.length = c.bucketSeconds → x.length = c.bucketSeconds from
    hlengths.imp_of_mem fun hx hy hxy => .inr ⟨hstop hx hy, hxy⟩
  rw [lines_sampleNext]
  split
  · unfold lengthsEnding
    rw [List.flatMap_cons, List.pairwise_append, hs.length_eq, hs.config_eq]
    refine ⟨List.pairwise_of_forall_mem_list fun x hx _ _ _ => (of_mem_linesOf hx).2.1,
      List.pairwise_of_forall_mem_list fun _ _ y hy hlength => ?_,
      fun x hx _ _ _ => (of_mem_linesOf hx).2.1⟩
    obtain ⟨span, hspan, hy⟩ := List.mem_flatMap.mp hy
    obtain rfl := (of_mem_linesOf hy).2.1
    exact absurd hlength (span_spec h.sound.valid hspans (List.mem_filter.mp hspan).1).1.ne'
  · exact .nil

/-- lines are written in the order of the buckets that their intervals end with -/
theorem Along.pairwise_lines (h : Along (Reached Q kind c first) [] vs)
    (hspans : ∀ d ∈ c.multiBucketLengths, d.secs.toNat < 2 ^ 63) :
    (writtenBy vs).Pairwise (FeatureLine.Precedes c.bucketSeconds) := by
  refine List.pairwise_flatMap.mpr ⟨fun v hv => ?_, ?_⟩
  · obtain ⟨_, hv⟩ := h.reached hv
    exact hv.onTime.pairwise_lines hspans
  · refine h.pairwise_next.imp_of_mem fun hv hw hnext x hx y hy => .inl ?_
    obtain ⟨_, hv⟩ := h.reached hv
    obtain ⟨_, hw⟩ := h.reached hw
    rw [hv.onTime.stop_of_mem hspans hx, hw.onTime.stop_of_mem hspans hy]
    omega

/-- a span that ends with a bucket counts what is written of its buckets, once it is sampled -/
theorem Along.spanCount_eq (h : Along (Reached (SpansWritten c) .eventRate c first) [] vs)
    (hf : .countByPair ∈ c.features) (hspans : ∀ d ∈ c.multiBucketLengths, d.secs.toNat < 2 ^ 63)
    (hv : v ∈ vs) (havailable : v.gatherer.available v.next = true) (hspan : span ∈ c.spanSeconds)
    (hs : span ∣ start) (hstop : start + span = v.next + c.bucketSeconds) (p : Pair) :
    v.passNext.spanCount span start p =
      writtenCount c.bucketSeconds p (linesWithin start (start + span) (writtenBy vs)) := by
  obtain ⟨us, ws, rfl⟩ := List.append_of_mem hv
  have hreached := h.of_split
  rw [List.nil_append] at hreached
  -- the buckets after the span are none of its own
  have hlater : writtenCount c.bucketSeconds p
      (linesWithin start (start + span) (writtenBy ws)) = 0 := by
    apply writtenCount_linesWithin_of_le
    intro m hm hlength
    obtain ⟨w, hw, hmw⟩ := List.mem_flatMap.mp hm
    obtain ⟨-, hafter, -⟩ := List.pairwise_append.mp h.pairwise_next
    have hle := (List.pairwise_cons.mp hafter).1 w hw
    obtain ⟨_, hlast⟩ := h.reached (List.mem_append_right us (List.mem_cons_of_mem v hw))
    rw [hlast.onTime.next_of_mem hmw, hlength, Int.neg_emod_self, Int.add_zero] at hle
    exact .inr (by omega)
  rw [hreached.kept.spanCount_passNext hreached.onTime hf hspans havailable hspan hs hstop.ge,
    writtenBy_append, writtenBy_cons, linesWithin_append, linesWithin_append, linesWithin_append]
  simp only [writtenCount_append, hlater, Nat.add_zero]

/-- the line of a span counts what is written of its buckets -/
theorem Along.countOf_eq (h : Along (Reached (SpansWritten c) .eventRate c first) [] vs)
    (hf : .countByPair ∈ c.features) (hspans : ∀ d ∈ c.multiBucketLengths, d.secs.toNat < 2 ^ 63)
    (hl : l ∈ writtenBy vs) (hcount : l.feature = .countByPair)
    (hlength : l.length ≠ c.bucketSeconds) (p : Pair) : l.values.countOf p =
      writtenCount c.bucketSeconds p
        (linesWithin l.start (l.start + l.length) (writtenBy vs)) := by
  obtain ⟨v, hv, hlv⟩ := List.mem_flatMap.mp hl
  obtain ⟨_, hreached⟩ := h.reached hv
  have hon := hreached.onTime
  have hsound := sound_passNext hon.sound
  obtain ⟨havailable, hmem, hending, -⟩ := hon.ending_of_mem hlv
  have hspan : l.length ∈ c.spanSeconds := by
    unfold lengthsEnding at hending
    rw [hsound.length_eq, hsound.config_eq] at hending
    exact (List.mem_filter.mp ((List.mem_cons.mp hending).resolve_left hlength)).1
  have haligned : l.length ∣ l.start := by
    rw [(of_mem_linesOf hmem).1]
    exact dvd_bucketAt _ _
  rw [countOf_of_mem_linesOf hsound hmem hlength hcount p]
  exact h.spanCount_eq hf hspans hv havailable hspan haligned (hon.stop_of_mem hspans hlv) p

/-- a span has a line, if its last bucket is sampled and its buckets have counted anything -/
theorem Along.exists_mem (h : Along (Reached (SpansWritten c) .eventRate c first) [] vs)
    (hf : .countByPair ∈ c.features) (hspans : ∀ d ∈ c.multiBucketLengths, d.secs.toNat < 2 ^ 63)
    (hv : v ∈ vs) (havailable : v.gatherer.available v.next = true) (hspan : span ∈ c.spanSeconds)
    (hs : span ∣ start) (hstop : start + span = v.next + c.bucketSeconds)
    (hpos : 0 < writtenCount c.bucketSeconds p (linesWithin start (start + span) (writtenBy vs))) :
    ∃ values, ⟨start, span, .countByPair, values⟩ ∈ writtenBy vs := by
  obtain ⟨_, hreached⟩ := h.reached hv
  have hon := hreached.onTime
  have hsound := sound_passNext hon.sound
  have hbucket := hsound.counts.ring.pos
  obtain ⟨hlt, -⟩ := span_spec hsound.valid hspans hspan
  obtain rfl : bucketAt v.next span = start := bucketAt_eq_of_mem hs (by omega) (by omega)
  rw [← h.spanCount_eq hf hspans hv havailable hspan hs hstop p] at hpos
  obtain ⟨values, hmem⟩ := exists_mem_linesOf hsound hf hlt.ne' hpos
  refine ⟨values, List.mem_flatMap.mpr ⟨v, hv, ?_⟩⟩
  have hending : span ∈ lengthsEnding v.passNext v.next := by
    unfold lengthsEnding
    rw [hsound.length_eq, hsound.config_eq, ← hstop]
    exact List.mem_cons_of_mem _ (List.mem_filter.mpr ⟨hspan, decide_eq_true
      (Int.emod_eq_zero_of_dvd (Int.dvd_add hs (Int.dvd_refl _)))⟩)
  rw [lines_sampleNext, if_pos havailable]
  exact List.mem_flatMap.mpr ⟨span, hending, hmem⟩

end Run

namespace Replay
variable {r r' : Replay} {c : Config}

/-- the line of a span counts for each pair what the lines of its buckets have counted before, and
a span, the last bucket of which was sampled, has a line if its buckets have counted anything: it is
written after the lines of that bucket and before those of the next one -/
theorem span_lines_add_up (hs : c.bucketLength.secs.toNat < 2 ^ 63)
    (hspans : ∀ d ∈ c.multiBucketLengths, d.secs.toNat < 2 ^ 63)
    (hf : .countByPair ∈ c.features) (hnew : Replay.new .eventRate c = .ok r)
    {xs : List Record} {lines : Array FeatureLine} (hok : feedAll #[] r xs = (lines, .ok r')) :
    (∀ (before : List FeatureLine) (l : FeatureLine) (after : List FeatureLine),
      (lines ++ r'.finish.1).toList = before ++ l :: after →
      l.feature = .countByPair → l.length ≠ c.bucketSeconds →
      ∀ p, l.values.countOf p =
        writtenCount c.bucketSeconds p (linesWithin l.start (l.start + l.length) before)) ∧
    (∀ span ∈ c.spanSeconds, ∀ start, span ∣ start →
      (∃ v ∈ r.visits xs, v.next = start + span - c.bucketSeconds ∧
        v.gatherer.available v.next = true) →
      (∃ p, 0 < writtenCount c.bucketSeconds p
        (linesWithin start (start + span) (lines ++ r'.finish.1).toList)) →
      ∃ (before : List FeatureLine) (l : FeatureLine) (after : List FeatureLine),
        (lines ++ r'.finish.1).toList = before ++ l :: after ∧
        l.start = start ∧ l.length = span ∧ l.feature = .countByPair ∧
        (∀ m ∈ before, m.stop ≤ start + span) ∧
        ∀ m ∈ after, start + span ≤ m.stop ∧
          (m.stop = start + span → m.length ≠ c.bucketSeconds)) := by
  obtain ⟨first, halong, hwritten⟩ :=
    exists_along_visits hs (Run.keeps_spansWritten hf hspans) hnew
      (fun _ _ _ h => Run.spansWritten_start h) hok
  rw [hwritten]
  have hordered := halong.pairwise_lines hspans
  constructor
  · intro before l after hsplit hcount hlength p
    rw [hsplit] at hordered
    -- no bucket of the span is written after its line
    have hlater : writtenCount c.bucketSeconds p
        (linesWithin l.start (l.start + l.length) (l :: after)) = 0 := by
      apply writtenCount_linesWithin_of_le
      intro m hm hsingle
      rcases List.mem_cons.mp hm with rfl | hm
      · exact absurd hsingle hlength
      · rcases (List.pairwise_cons.mp (List.pairwise_append.mp hordered).2.1).1 m hm with
          hlater | ⟨-, hfirst⟩
        · unfold FeatureLine.stop at hlater
          exact .inr (by omega)
        · exact absurd (hfirst hsingle) hlength
    rw [halong.countOf_eq hf hspans (by simp [hsplit]) hcount hlength, hsplit, linesWithin_append,
      writtenCount_append, hlater, Nat.add_zero]
  · rintro span hspan start hstart ⟨v, hv, hnext, havailable⟩ ⟨p, hpos⟩
    obtain ⟨_, hreached⟩ := halong.reached hv
    have hsound := hreached.onTime.sound
    have hbucket := hsound.counts.ring.pos
    obtain ⟨hlt, -⟩ := Run.span_spec hsound.valid hspans hspan
    obtain ⟨values, hl⟩ :=
      halong.exists_mem hf hspans hv havailable hspan hstart (by omega) hpos
    obtain ⟨before, after, hsplit⟩ := List.append_of_mem hl
    rw [hsplit] at hordered ⊢
    obtain ⟨-, hafter, hbefore⟩ := List.pairwise_append.mp hordered
    refine ⟨before, _, after, rfl, rfl, rfl, rfl,
      fun m hm => (hbefore m hm _ List.mem_cons_self).stop_le hbucket, fun m hm => ?_⟩
    have hprecedes := (List.pairwise_cons.mp hafter).1 m hm
    refine ⟨hprecedes.stop_le hbucket, fun hsame hsingle => ?_⟩
    rcases hprecedes with hlater | ⟨-, hfirst⟩
    · have hlater : start + span + c.bucketSeconds ≤ m.stop := hlater
      omega
    · exact hlt.ne' (hfirst hsingle)

/-- a span before the epoch counts both of its buckets -/
theorem span_lines_add_up_before_epoch :
    let c : Config :=
      { Config.default with
        bucketLength := .ofSecs 60, multiBucketLengths := [.ofSecs 120],
        features := [.countByPair] }
    let r : Replay := ⟨.eventRate, c, none⟩
    let xs : List Record :=
      [⟨-100, some "alice", some "login", none, [], some 2, none, [], false⟩,
        ⟨-50, some "alice", some "login", none, [], some 1, none, [], false⟩]
    ∃ lines r', feedAll #[] r xs = (lines, .ok r') ∧
      (∀ p, Readout.countOf p (.pairCounts [(⟨0, 0⟩, 3)]) = writtenCount 60 p (linesWithin (-120) 0
        [⟨-120, 60, .countByPair, .pairCounts [(⟨0, 0⟩, 2)]⟩,
          ⟨-60, 60, .countByPair, .pairCounts [(⟨0, 0⟩, 1)]⟩])) ∧
      ∃ (before : List FeatureLine) (l : FeatureLine) (after : List FeatureLine),
        (lines ++ r'.finish.1).toList = before ++ l :: after ∧
        l.start = -120 ∧ l.length = 120 := by
  intro c r xs
  have hnew : Replay.new .eventRate c = .ok r := by
    unfold Replay.new
    rw [show c.fault? .eventRate = none by decide]
  have hwritten : r.output? xs = some [⟨-120, 60, .countByPair, .pairCounts [(⟨0, 0⟩, 2)]⟩,
      ⟨-60, 60, .countByPair, .pairCounts [(⟨0, 0⟩, 1)]⟩,
      ⟨-120, 120, .countByPair, .pairCounts [(⟨0, 0⟩, 3)]⟩] := by
    simp only [r, c, xs]
    cbv
  have hsampled : ∃ v ∈ r.visits xs, v.next = -120 + 120 - c.bucketSeconds ∧
      v.gatherer.available v.next = true := by
    have hvisits : ((r.visits xs).map fun v => (v.next, v.gatherer.available v.next)) =
        [(-120, true), (-60, true)] := by
      simp only [r, c, xs]
      cbv
    have hlast : ((-60, true) : Int × Bool) ∈
        (r.visits xs).map fun v => (v.next, v.gatherer.available v.next) := by
      rw [hvisits]
      simp
    obtain ⟨v, hv, heq⟩ := List.mem_map.mp hlast
    exact ⟨v, hv, (Prod.mk.inj heq).1, (Prod.mk.inj heq).2⟩
  obtain ⟨lines, r', hfeed, hlines⟩ := exists_of_output? hwritten
  obtain ⟨hadd, hwrite⟩ := span_lines_add_up (by decide) (by decide) (by decide) hnew hfeed
  obtain ⟨before, l, after, hsplit, hstart, hlength, -⟩ :=
    hwrite 120 (by decide) (-120) (by decide) hsampled ⟨⟨0, 0⟩, by rw [hlines]; decide⟩
  exact ⟨lines, r', hfeed, hadd _ ⟨-120, 120, .countByPair, .pairCounts [(⟨0, 0⟩, 3)]⟩ [] hlines rfl
    (by decide), before, l, after, hsplit, hstart, hlength⟩

end Replay

end EventBuckets
