import EventBuckets.Gatherer.Intake
import EventBuckets.Gatherer.Removal
import EventBuckets.Gatherer.Snapshot
import EventBuckets.Proofs.Binary64
import EventBuckets.Proofs.Ring

/-!
# Sound gatherers

The clock, the ring of the counts and the ring of the series move together.

* `Config.valid_iff`
                    a configuration has no fault iff each of its fields passes its check;
* `Window.Fits`     the ring of a window covers what a configuration says, up to the current start,
                    and there is one open span at most for each configured length;
* `Series.Fits`     the window of a series fits, and no sample count is a zero;
* `Gatherer.Sound`  a valid configuration, and both windows fit;
* `advance_eq`      moving the clock, however far, is one step of both windows; apart from that it
                    changes the sample counts only;
* `Sound.advance`, `Sound.add`, `Sound.release`, ...
                    every operation keeps a gatherer sound.
-/

set_option linter.unusedSectionVars false

namespace EventBuckets

/-! ## lengths -/

theorem Duration.seconds_eq {d : Duration} (h : d.secs.toNat < 2 ^ 63) :
    d.seconds = d.secs.toNat := by
  unfold Duration.seconds
  rw [Int64.toInt, UInt64.toBitVec_toInt64, BitVec.toInt_eq_toNat_of_lt]
  · rfl
  · show 2 * d.secs.toNat < 2 ^ 64
    omega

theorem Duration.secs_lt_of_seconds_pos {d : Duration} (h : 0 < d.seconds) :
    d.secs.toNat < 2 ^ 63 := by
  unfold Duration.seconds at h
  rw [Int64.toInt, UInt64.toBitVec_toInt64] at h
  have hlt : 2 * d.secs.toBitVec.toNat < 2 ^ 64 := BitVec.toInt_pos_iff.mp h.le
  show d.secs.toBitVec.toNat < 2 ^ 63
  omega

theorem Duration.seconds_inj {d d' : Duration} (h : d.seconds = d'.seconds) : d.secs = d'.secs := by
  have hsecs := congrArg Int64.toUInt64 (Int64.toInt_inj.mp h)
  simpa using hsecs

namespace Config
variable {c : Config} {kind : SeriesKind}

/-- a configuration has no fault iff each of its fields passes its check -/
theorem valid_iff : c.fault? kind = none ↔
    (c.bucketLength.secs ≠ 0 ∧ c.bucketLength.nanos = 0) ∧
      (∀ d ∈ c.multiBucketLengths, fitsSpan c.bucketLength d = true) ∧
      isShare c.sampleCountWeight = true ∧ ∀ f ∈ c.features, f.kind = kind := by
  unfold fault?
  by_cases hlength : c.bucketLength.secs = 0 ∨ c.bucketLength.nanos ≠ 0
  · rw [if_pos hlength]
    exact iff_of_false nofun fun h => hlength.elim h.1.1 fun hnanos => hnanos h.1.2
  rw [if_neg hlength]
  have hlength := not_or.mp hlength
  cases hspan : c.multiBucketLengths.find? fun length => !fitsSpan c.bucketLength length with
  | some d =>
    have hfault := List.find?_some hspan
    refine iff_of_false nofun fun h => ?_
    rw [h.2.1 d (List.mem_of_find?_eq_some hspan)] at hfault
    cases hfault
  | none =>
    have hspans : ∀ d ∈ c.multiBucketLengths, fitsSpan c.bucketLength d = true := by
      simpa using List.find?_eq_none.mp hspan
    cases hshare : isShare c.sampleCountWeight with
    | false => exact iff_of_false nofun fun h => Bool.false_ne_true h.2.2.1
    | true =>
      simp only [Bool.not_true, Bool.false_eq_true, if_false, Option.map_eq_none_iff,
        List.find?_eq_none, decide_eq_true_eq, not_not]
      exact ⟨fun h => ⟨⟨hlength.1, not_not.mp hlength.2⟩, hspans, trivial, h⟩, fun h => h.2.2.2⟩

theorem nanos_of_valid (h : c.fault? kind = none) : c.bucketLength.nanos = 0 := (valid_iff.mp h).1.2

theorem fitsSpan_of_valid (h : c.fault? kind = none) {d : Duration}
    (hd : d ∈ c.multiBucketLengths) : fitsSpan c.bucketLength d = true :=
  (valid_iff.mp h).2.1 d hd

theorem isShare_of_valid (h : c.fault? kind = none) : isShare c.sampleCountWeight = true :=
  (valid_iff.mp h).2.2.1

theorem kind_of_valid (h : c.fault? kind = none) {f : Feature} (hf : f ∈ c.features) :
    f.kind = kind :=
  (valid_iff.mp h).2.2.2 f hf

theorem bucketSeconds_pos (h : c.fault? kind = none)
    (hs : c.bucketLength.secs.toNat < 2 ^ 63) : 0 < c.bucketSeconds := by
  unfold Config.bucketSeconds
  rw [Duration.seconds_eq hs]
  by_contra hle
  exact (valid_iff.mp h).1.1 (UInt64.toNat_inj.mp (by simpa using hle))

/-- the seconds of a span, as they are written, are a greater multiple of those of a bucket -/
theorem secs_of_valid (h : c.fault? kind = none) {d : Duration} (hd : d ∈ c.multiBucketLengths) :
    c.bucketLength.secs.toNat < d.secs.toNat ∧ c.bucketLength.secs.toNat ∣ d.secs.toNat := by
  have hfits := fitsSpan_of_valid h hd
  unfold fitsSpan at hfits
  simp only [Bool.and_eq_true, decide_eq_true_eq] at hfits
  obtain ⟨⟨-, hlt⟩, hmod⟩ := hfits
  refine ⟨UInt64.lt_iff_toNat_lt.mp hlt, Nat.dvd_of_mod_eq_zero ?_⟩
  rw [← UInt64.toNat_mod, hmod]
  rfl

/-- a span is a multiple of a bucket -/
theorem span_of_valid (h : c.fault? kind = none) {d : Duration} (hd : d ∈ c.multiBucketLengths)
    (hs : d.secs.toNat < 2 ^ 63) :
    c.bucketLength.secs.toNat < 2 ^ 63 ∧ c.bucketSeconds ∣ d.seconds := by
  obtain ⟨hlt, hdvd⟩ := secs_of_valid h hd
  have hsmall : c.bucketLength.secs.toNat < 2 ^ 63 := hlt.trans hs
  refine ⟨hsmall, ?_⟩
  unfold bucketSeconds
  rw [Duration.seconds_eq hs, Duration.seconds_eq hsmall]
  exact Int.natCast_dvd_natCast.mpr hdvd

/-- a span is longer than a bucket -/
theorem lt_span_of_valid (h : c.fault? kind = none) {d : Duration} (hd : d ∈ c.multiBucketLengths)
    (hs : d.secs.toNat < 2 ^ 63) : c.bucketSeconds < d.seconds := by
  have hlt := (secs_of_valid h hd).1
  unfold bucketSeconds
  rw [Duration.seconds_eq hs, Duration.seconds_eq (hlt.trans hs)]
  exact Int.ofNat_lt.mpr hlt

end Config

/-! ## windows -/

/-- no span of the lengths is open, and there are no other lengths -/
theorem Spans.getElem?_new {α : Type} (lengths : List Int) (length : Int) :
    (Spans.new lengths : Spans α).byLength[length]? =
      if length ∈ lengths then some none else none := by
  have go (m : Std.ExtTreeMap Int (Option (OpenSpan α)) compare) :
      (lengths.foldl (fun m length => m.insert length none) m)[length]? =
        if length ∈ lengths then some none else m[length]? := by
    induction lengths generalizing m with
    | nil => simp
    | cons l ls ih =>
      rw [List.foldl_cons, ih, Std.ExtTreeMap.getElem?_insert]
      simp only [Std.LawfulEqCmp.compare_eq_iff_eq, List.mem_cons]
      grind
  unfold Spans.new
  rw [go, Std.ExtTreeMap.getElem?_empty]

namespace Window
variable {α : Type} [PairData α]

/-- a window as a configuration has it, with the current bucket at `start` -/
structure Fits (w : Window α) (c : Config) (start : Int) : Prop where
  ring : w.ring.Covers c.bucketSeconds c.latencyBuckets start
  spans : ∀ length, w.spans.hasLength length = true ↔ length ∈ c.spanSeconds

variable {w : Window α} {c : Config} {start : Int}

theorem Fits.startBucket (h : w.Fits c start) (t : Int) :
    (w.startBucket t).Fits c (max start (bucketAt t c.bucketSeconds)) :=
  ⟨h.ring.roll t, h.spans⟩

theorem Fits.modify (h : w.Fits c start) (t : Int) (f : α → α) : (w.modify t f).Fits c start :=
  ⟨h.ring.modify t f, h.spans⟩

theorem modify_id (h : w.Fits c start) (t : Int) : (w.modify t fun x => x) = w :=
  congrArg (fun r => ({ w with ring := r } : Window α)) (Ring.modify_id h.ring.sound t)

theorem Fits.emptyBucket (h : w.Fits c start) (t : Int) : (w.emptyBucket t).Fits c start :=
  h.modify t _

theorem Fits.retain (h : w.Fits c start) (keeps : Pair → Bool) : (w.retain keeps).Fits c start :=
  ⟨h.ring.mapTimed fun _ bucket => PairData.retain keeps bucket, h.spans⟩

theorem Fits.sample (h : w.Fits c start) (t : Int) : (w.sample t).Fits c start := by
  unfold Window.sample
  split
  · exact ⟨h.ring, fun length => by simpa [Spans.sample, Spans.hasLength] using h.spans length⟩
  · exact h

/-- the ring after the buckets that ended by `cutoff` are emptied -/
theorem ring_release (w : Window α) (cutoff : Int) :
    (w.release cutoff).1.ring = w.ring.mapTimed fun start bucket =>
      if releasable w.ring.length cutoff start bucket then ∅ else bucket := rfl

theorem Fits.release (h : w.Fits c start) (cutoff : Int) : (w.release cutoff).1.Fits c start :=
  ⟨ring_release w cutoff ▸ h.ring.mapTimed _, fun length => by
    simpa [Window.release, Spans.release, Spans.hasLength] using h.spans length⟩

theorem Fits.clear (h : w.Fits c start) : w.clear.Fits c start :=
  ⟨h.ring.clear, fun length => by
    simpa [Window.clear, Spans.clear, Spans.hasLength] using h.spans length⟩

theorem Fits.reset (h : w.Fits c start) (t : Int) :
    (w.reset t).Fits c (bucketAt t c.bucketSeconds) :=
  ⟨h.ring.reset t, fun length => by
    simpa [Window.reset, Spans.clear, Spans.hasLength] using h.spans length⟩

theorem hasLength_new (lengths : List Int) (length : Int) :
    (Spans.new lengths : Spans α).hasLength length = true ↔ length ∈ lengths := by
  unfold Spans.hasLength
  rw [Std.ExtTreeMap.contains_eq_isSome_getElem?, Spans.getElem?_new]
  split <;> simp [*]

theorem fits_new (hpos : 0 < c.bucketSeconds) (t : Int) :
    (Window.new c t : Window α).Fits c (bucketAt t c.bucketSeconds) :=
  ⟨.new hpos t, hasLength_new c.spanSeconds⟩

/-- of two steps forward only the later one counts -/
theorem startBucket_startBucket (h : w.Fits c start) {s t : Int}
    (hst : bucketAt s c.bucketSeconds ≤ bucketAt t c.bucketSeconds) :
    (w.startBucket s).startBucket t = w.startBucket t := by
  have : (w.ring.roll s).roll t = w.ring.roll t :=
    Ring.roll_roll h.ring.sound (by rwa [h.ring.length_eq])
  exact congrArg (fun r => ({ w with ring := r } : Window α)) this

theorem startBucket_of_le (h : w.Fits c start) {t : Int} (ht : bucketAt t c.bucketSeconds ≤ start) :
    w.startBucket t = w := by
  have : w.ring.roll t = w.ring := Ring.roll_of_le (by rwa [h.ring.length_eq, h.ring.newest_eq])
  exact congrArg (fun r => ({ w with ring := r } : Window α)) this

end Window

/-! ## series -/

namespace SampleCounts

/-- no zero is kept -/
def Proper (s : SampleCounts) : Prop :=
  ∀ (person : Nat) (x : Binary64), s.byPerson[person]? = some x → x.isZero = false

theorem proper_empty : empty.Proper := by
  intro person x h
  simp [empty] at h

theorem Proper.set {s : SampleCounts} (h : s.Proper) (person : Nat) {x : Binary64}
    (hx : x ≠ Binary64.negZero) : (s.set person x).Proper := by
  intro q y hy
  unfold SampleCounts.set at hy
  split at hy
  next =>
    rw [Std.ExtTreeMap.getElem?_erase] at hy
    split at hy
    · cases hy
    · exact h q y hy
  next hne =>
    rw [Std.ExtTreeMap.getElem?_insert] at hy
    split at hy
    · obtain rfl := Option.some.inj hy
      by_contra hz
      rcases Binary64.eq_zero_or_negZero (Bool.eq_true_of_not_eq_false hz) with h0 | h1
      · exact hne h0
      · exact hx h1
    · exact h q y hy

theorem Proper.update {s : SampleCounts} (h : s.Proper) (weight : Binary64)
    (counts : List (Nat × Nat)) : (s.update weight counts).Proper := by
  unfold SampleCounts.update
  induction counts generalizing s with
  | nil => exact h
  | cons e counts ih =>
    apply ih
    show (updatePerson weight s e.1 e.2).Proper
    unfold updatePerson
    split
    · exact h
    · exact h.set e.1 (smoothed_ne_negZero weight _ e.2)

theorem Proper.retain {s : SampleCounts} (h : s.Proper) (keeps : Nat → Bool) :
    (s.retain keeps).Proper := by
  intro person x hx
  unfold SampleCounts.retain at hx
  rw [Std.ExtTreeMap.getElem?_filter'] at hx
  exact h person x (Option.filter_eq_some_iff.mp hx).1

end SampleCounts

namespace Series

/-- a series of a kind as a configuration has it, with the current bucket at `start` -/
inductive Fits (c : Config) (start : Int) : SeriesKind → Series → Prop
  | occurrences {s : Occurrences} (window : s.window.Fits c start) :
    Fits c start .eventRate (.occurrences s)
  | measured {s : Measured} (window : s.window.Fits c start) (samples : s.samples.Proper)
    (weight : s.weight = c.sampleCountWeight) : Fits c start .metric (.measured s)

/-- the series with other sample counts, if it has any -/
def withSamples (s : Series) (x : SampleCounts) : Series :=
  match s with
  | occurrences s => occurrences s
  | measured s => measured { s with samples := x }

variable {s : Series} {c : Config} {start : Int} {kind : SeriesKind}

theorem Fits.kind_eq (h : s.Fits c start kind) : s.kind = kind := by
  cases h <;> rfl

theorem Fits.exists_occurrences (h : s.Fits c start .eventRate) :
    ∃ o : Occurrences, s = .occurrences o ∧ o.window.Fits c start := by
  cases h with
  | occurrences window => exact ⟨_, rfl, window⟩

theorem fits_new (hpos : 0 < c.bucketSeconds) (t : Int) :
    (Series.new kind c t).Fits c (bucketAt t c.bucketSeconds) kind := by
  cases kind with
  | eventRate => exact .occurrences (Window.fits_new hpos t)
  | metric => exact .measured (Window.fits_new hpos t) SampleCounts.proper_empty rfl

theorem Fits.startBucket (h : s.Fits c start kind) (t : Int) (counting : Bool) :
    (s.startBucket t counting).Fits c (max start (bucketAt t c.bucketSeconds)) kind := by
  cases h with
  | occurrences window => exact .occurrences (window.startBucket t)
  | measured window samples weight =>
    cases counting with
    | false => exact .measured (window.startBucket t) samples weight
    | true => exact .measured (window.startBucket t) (samples.update _ _) weight

theorem Fits.sample (h : s.Fits c start kind) (t : Int) : (s.sample t).Fits c start kind := by
  cases h with
  | occurrences window => exact .occurrences (window.sample t)
  | measured window samples weight => exact .measured (window.sample t) samples weight

theorem Fits.add (h : s.Fits c start kind) (t : Int) (p : Pair) (e : Event) :
    (s.add t p e).Fits c start kind := by
  cases h with
  | @occurrences s window =>
    unfold Series.add Occurrences.add
    cases e.text with
    | some text => exact .occurrences (window.modify t _)
    | none => exact .occurrences window
  | measured window samples weight => exact .measured (window.modify t _) samples weight

theorem Fits.retainPeople (h : s.Fits c start kind) (keeps : Nat → Bool) :
    (s.retainPeople keeps).Fits c start kind := by
  cases h with
  | occurrences window => exact .occurrences (window.retain _)
  | measured window samples weight =>
    exact .measured (window.retain _) (samples.retain keeps) weight

theorem Fits.retainAttributes (h : s.Fits c start kind) (keeps : Nat → Bool) :
    (s.retainAttributes keeps).Fits c start kind := by
  cases h with
  | occurrences window => exact .occurrences (window.retain _)
  | measured window samples weight => exact .measured (window.retain _) samples weight

theorem Fits.emptyBucket (h : s.Fits c start kind) (t : Int) :
    (s.emptyBucket t).Fits c start kind := by
  cases h with
  | occurrences window => exact .occurrences (window.emptyBucket t)
  | measured window samples weight => exact .measured (window.emptyBucket t) samples weight

theorem Fits.release (h : s.Fits c start kind) (cutoff : Int) :
    (s.release cutoff).1.Fits c start kind := by
  cases h with
  | occurrences window => exact .occurrences (window.release cutoff)
  | measured window samples weight => exact .measured (window.release cutoff) samples weight

theorem Fits.clear (h : s.Fits c start kind) : s.clear.Fits c start kind := by
  cases h with
  | occurrences window => exact .occurrences window.clear
  | measured window samples weight =>
    exact .measured window.clear SampleCounts.proper_empty weight

theorem Fits.reset (h : s.Fits c start kind) (t : Int) :
    (s.reset t).Fits c (bucketAt t c.bucketSeconds) kind := by
  cases h with
  | occurrences window => exact .occurrences (window.reset t)
  | measured window samples weight => exact .measured (window.reset t) samples weight

theorem Fits.withSamples (h : s.Fits c start kind) {x : SampleCounts} (hx : x.Proper) :
    (s.withSamples x).Fits c start kind := by
  cases h with
  | occurrences window => exact .occurrences window
  | measured window samples weight => exact .measured window hx weight

/-- no step forward, apart from sample counts -/
theorem startBucket_of_le (h : s.Fits c start kind) {t : Int}
    (ht : bucketAt t c.bucketSeconds ≤ start) :
    ∃ x : SampleCounts, x.Proper ∧ (s.startBucket t false).withSamples x = s := by
  cases h with
  | @occurrences s window =>
    refine ⟨.empty, SampleCounts.proper_empty, ?_⟩
    exact congrArg (fun w => occurrences ⟨w⟩) (Window.startBucket_of_le window ht)
  | @measured s window samples weight =>
    refine ⟨s.samples, samples, ?_⟩
    exact congrArg (fun w => measured { s with window := w }) (Window.startBucket_of_le window ht)

/-- of two steps forward only the later one counts, apart from sample counts -/
theorem startBucket_startBucket (h : s.Fits c start kind) {t u : Int}
    (htu : bucketAt t c.bucketSeconds ≤ bucketAt u c.bucketSeconds) {x : SampleCounts}
    (hx : x.Proper) (counting : Bool) :
    ∃ y : SampleCounts, y.Proper ∧ ((s.startBucket t false).withSamples x).startBucket u counting =
      (s.startBucket u false).withSamples y := by
  cases h with
  | @occurrences s window =>
    refine ⟨x, hx, ?_⟩
    exact congrArg (fun w => occurrences ⟨w⟩) (Window.startBucket_startBucket window htu)
  | @measured s window samples weight =>
    have step (y : SampleCounts) :
        measured { s with window := (s.window.startBucket t).startBucket u, samples := y } =
          measured { s with window := s.window.startBucket u, samples := y } :=
      congrArg (fun w => measured { s with window := w, samples := y })
        (Window.startBucket_startBucket window htu)
    cases counting with
    | false => exact ⟨x, hx, step x⟩
    | true => exact ⟨_, hx.update _ _, step _⟩

end Series

/-! ## gatherers -/

namespace Gatherer

/-- a gatherer of a kind as a valid configuration has it -/
structure Sound (g : Gatherer) (kind : SeriesKind) (c : Config) : Prop where
  config_eq : g.config = c
  valid : c.fault? kind = none
  counts : g.counts.Fits c g.start
  series : g.series.Fits c g.start kind

variable {g : Gatherer} {kind : SeriesKind} {c : Config}

theorem Sound.kind_eq (h : g.Sound kind c) : g.kind = kind := h.series.kind_eq

theorem Sound.length_eq (h : g.Sound kind c) : g.length = c.bucketSeconds :=
  congrArg Config.bucketSeconds h.config_eq

/-- a span is longer than a bucket -/
theorem Sound.spanSeconds_ne (h : g.Sound kind c) {span : Int} (hspan : span ∈ c.spanSeconds) :
    span ≠ g.length := by
  obtain ⟨d, hd, rfl⟩ := List.mem_map.mp hspan
  intro heq
  have hsecs : d.secs = c.bucketLength.secs := Duration.seconds_inj (heq.trans h.length_eq)
  have hfits := Config.fitsSpan_of_valid h.valid hd
  simp [Config.fitsSpan, hsecs] at hfits

theorem Sound.latency_eq (h : g.Sound kind c) : g.latency = c.latencyBuckets :=
  congrArg Config.latencyBuckets h.config_eq

theorem Sound.pos (h : g.Sound kind c) : 0 < g.length := h.length_eq ▸ h.counts.ring.pos

theorem Sound.aligned (h : g.Sound kind c) : g.length ∣ g.start :=
  h.length_eq ▸ h.counts.ring.aligned

/-- a valid configuration has a gatherer for each time -/
theorem new_eq (hv : c.fault? kind = none) (t : Int) : new kind c t =
    .ok ⟨c, bucketAt t c.bucketSeconds, none, .new c t, .new kind c t, .empty, ⟨0, 0⟩⟩ := by
  unfold new
  rw [hv]

theorem valid_of_new {t : Int} (h : new kind c t = .ok g) : c.fault? kind = none := by
  unfold new at h
  split at h
  · cases h
  next hv => exact hv

theorem sound_new (hs : c.bucketLength.secs.toNat < 2 ^ 63) {t : Int}
    (h : new kind c t = .ok g) : g.Sound kind c := by
  have hv := valid_of_new h
  rw [new_eq hv] at h
  obtain rfl := Except.ok.inj h
  have hpos := Config.bucketSeconds_pos hv hs
  exact ⟨rfl, hv, Window.fits_new hpos t, Series.fits_new hpos t⟩

/-! ## the clock -/

/-- the gatherer with both windows moved to the bucket that holds `time`, and new sample counts -/
def movedTo (g : Gatherer) (time : Int) (x : SampleCounts) : Gatherer :=
  { g with
    start := max g.start (bucketAt time g.length)
    counts := g.counts.startBucket (bucketAt time g.length)
    series := (g.series.startBucket (bucketAt time g.length) false).withSamples x }

theorem Sound.movedTo (h : g.Sound kind c) (t : Int) {x : SampleCounts} (hx : x.Proper) :
    (g.movedTo t x).Sound kind c := by
  have e : max g.start (bucketAt t g.length) =
      max g.start (bucketAt (bucketAt t g.length) c.bucketSeconds) := by
    rw [← h.length_eq, bucketAt_bucketAt]
  have hstart : (g.movedTo t x).start = _ := e
  refine ⟨h.config_eq, h.valid, ?_, ?_⟩
  · rw [hstart]
    exact h.counts.startBucket _
  · rw [hstart]
    exact (h.series.startBucket _ false).withSamples hx

theorem openBucket_movedTo (h : g.Sound kind c) {t u : Int}
    (htu : bucketAt t g.length ≤ bucketAt u g.length) {x : SampleCounts} (hx : x.Proper)
    (counting : Bool) :
    ∃ y : SampleCounts, y.Proper ∧ ∀ start,
      { (g.movedTo t x).openBucket (bucketAt u g.length) counting with start } =
        { g.movedTo u y with start } := by
  have htu' : bucketAt (bucketAt t g.length) c.bucketSeconds ≤
      bucketAt (bucketAt u g.length) c.bucketSeconds := by
    rwa [← h.length_eq, bucketAt_bucketAt, bucketAt_bucketAt]
  obtain ⟨y, hy, hs⟩ := Series.startBucket_startBucket h.series htu' hx counting
  have hc := Window.startBucket_startBucket h.counts htu'
  refine ⟨y, hy, fun start => ?_⟩
  unfold openBucket Gatherer.movedTo
  simp only [hs, hc]

theorem movedTo_of_le (h : g.Sound kind c) {t : Int} (ht : bucketAt t g.length ≤ g.start) :
    ∃ x : SampleCounts, x.Proper ∧ g.movedTo t x = g := by
  have ht' : bucketAt (bucketAt t g.length) c.bucketSeconds ≤ g.start := by
    rwa [← h.length_eq, bucketAt_bucketAt]
  obtain ⟨x, hx, hs⟩ := Series.startBucket_of_le h.series ht'
  have hc := Window.startBucket_of_le h.counts ht'
  refine ⟨x, hx, ?_⟩
  unfold Gatherer.movedTo
  rw [max_eq_left ht, hc, hs]

/-- the start of the bucket after `n` further ones -/
theorem Sound.aligned_add (h : g.Sound kind c) (n : Int) :
    bucketAt (g.start + n * g.length) g.length = g.start + n * g.length :=
  bucketAt_of_dvd (Int.dvd_add h.aligned (Int.dvd_mul_left n g.length))

theorem openNext_succ (g : Gatherer) (n : Nat) (counting : Bool) :
    g.openNext (n + 1) counting =
      (g.openNext n counting).openBucket (g.start + (n + 1 : Nat) * g.length) counting := by
  simp [openNext, List.range_succ, List.foldl_append]

/-- what opening a bucket keeps, moving the clock keeps, whichever buckets it opens -/
theorem advance_of_openBucket {P : Gatherer → Prop} {counting : Bool}
    (hopen : ∀ h start, P h → P (h.openBucket start counting))
    (hset : ∀ h start, P h → P { h with start }) (h : P g) (t : Int) :
    P (g.advance t counting) := by
  have hnext (n : Nat) : P (g.openNext n counting) := by
    induction n with
    | zero => exact h
    | succ n ih =>
      rw [openNext_succ]
      exact hopen _ _ ih
  unfold advance
  simp only
  split
  · exact h
  · split
    · exact hset _ _ (hopen _ _ (hnext _))
    · exact hset _ _ (hnext _)

theorem openNext_eq (h : g.Sound kind c) (n : Nat) (counting : Bool) :
    ∃ x : SampleCounts, x.Proper ∧ ∀ start,
      { g.openNext n counting with start } =
        { g.movedTo (g.start + n * g.length) x with start } := by
  induction n with
  | zero =>
    have e : g.start + (0 : Nat) * g.length = g.start := by simp
    obtain ⟨x, hx, hg⟩ := movedTo_of_le h (t := g.start + (0 : Nat) * g.length)
      (by rw [h.aligned_add, e])
    exact ⟨x, hx, fun start => by rw [hg]; rfl⟩
  | succ n ih =>
    obtain ⟨x, hx, hn⟩ := ih
    have hle : bucketAt (g.start + n * g.length) g.length ≤
        bucketAt (g.start + (n + 1 : Nat) * g.length) g.length := by
      have := h.pos
      rw [h.aligned_add, h.aligned_add]
      push_cast
      rw [add_mul]
      omega
    obtain ⟨y, hy, hstep⟩ := openBucket_movedTo h hle hx counting
    refine ⟨y, hy, fun start => ?_⟩
    rw [← hstep start, h.aligned_add, openNext_succ]
    exact congrArg (fun k => ({ k.openBucket (g.start + (n + 1 : Nat) * g.length) counting with
      start } : Gatherer)) (hn start)

/-- however far the clock moves, it moves the windows in one step -/
theorem advance_eq (h : g.Sound kind c) (t : Int) (counting : Bool) :
    ∃ x : SampleCounts, x.Proper ∧ g.advance t counting = g.movedTo t x := by
  obtain ⟨n, hn⟩ := h.aligned
  obtain ⟨a, ha⟩ := dvd_bucketAt t g.length
  have hsteps : bucketsBetween g.start (bucketAt t g.length) g.length = a - n := by
    rw [hn, ha, bucketsBetween_mul h.pos]
  unfold advance
  simp only [hsteps]
  split
  next hle =>
    obtain ⟨x, hx, hg⟩ := movedTo_of_le h (t := t) (by
      rw [hn, ha]
      exact mul_le_mul_of_nonneg_left (by omega) h.pos.le)
    exact ⟨x, hx, hg.symm⟩
  next hlt =>
    have hstart : max g.start (bucketAt t g.length) = bucketAt t g.length := by
      rw [max_eq_right]
      rw [hn, ha]
      exact mul_le_mul_of_nonneg_left (by omega) h.pos.le
    have hmoved (x : SampleCounts) :
        ({ g.movedTo t x with start := bucketAt t g.length } : Gatherer) = g.movedTo t x := by
      unfold Gatherer.movedTo
      rw [hstart]
    obtain ⟨x, hx, hopened⟩ := openNext_eq h (min (a - n).toNat (g.latency + 1)) counting
    split
    next hcap =>
      -- the last bucket is opened by itself
      have hle : bucketAt (g.start + (min (a - n).toNat (g.latency + 1) : Nat) * g.length) g.length ≤
          bucketAt t g.length := by
        rw [h.aligned_add, hn, ha, mul_comm _ g.length, ← mul_add]
        exact mul_le_mul_of_nonneg_left (by omega) h.pos.le
      obtain ⟨y, hy, hstep⟩ := openBucket_movedTo h hle hx counting
      refine ⟨y, hy, ?_⟩
      rw [← hmoved y, ← hstep]
      exact congrArg (fun k => ({ k.openBucket (bucketAt t g.length) counting with
        start := bucketAt t g.length } : Gatherer)) (hopened g.start)
    next hcap =>
      have hreach : g.start + (min (a - n).toNat (g.latency + 1) : Nat) * g.length =
          bucketAt t g.length := by
        rw [hn, ha, mul_comm _ g.length, ← mul_add]
        congr 1
        omega
      refine ⟨x, hx, ?_⟩
      rw [hopened, hreach, ← hmoved x]
      unfold Gatherer.movedTo
      rw [bucketAt_bucketAt]

theorem Sound.advance (h : g.Sound kind c) (t : Int) (counting : Bool) :
    (g.advance t counting).Sound kind c := by
  obtain ⟨x, hx, e⟩ := advance_eq h t counting
  rw [e]
  exact h.movedTo t hx

theorem start_advance (h : g.Sound kind c) (t : Int) (counting : Bool) :
    (g.advance t counting).start = max g.start (bucketAt t g.length) := by
  obtain ⟨x, -, e⟩ := advance_eq h t counting
  rw [e]
  rfl

theorem earliest_advance (h : g.Sound kind c) (t : Int) (counting : Bool) :
    (g.advance t counting).earliest = g.earliest := by
  obtain ⟨x, -, e⟩ := advance_eq h t counting
  rw [e]
  rfl

/-- a step of the clock that counts no samples leaves the sample counts -/
theorem sampleCount?_advance_false (g : Gatherer) (t : Int) :
    (g.advance t false).series.sampleCount? = g.series.sampleCount? := by
  refine advance_of_openBucket (P := fun h => h.series.sampleCount? = g.series.sampleCount?)
    (fun h start hh => ?_) (fun _ _ hh => hh) rfl t
  rw [← hh]
  show (h.series.startBucket start false).sampleCount? = _
  cases h.series <;> rfl

theorem Sound.tick (h : g.Sound kind c) (t : Int) : (g.tick t).2.Sound kind c := by
  unfold Gatherer.tick
  split
  · exact h
  · exact h.advance t true

theorem Sound.sample (h : g.Sound kind c) (t : Int) : (g.sample t).Sound kind c := by
  have h' := h.advance (g.lastCall t) true
  exact ⟨h'.config_eq, h'.valid, h'.counts.sample _, h'.series.sample _⟩

theorem Sound.skip (h : g.Sound kind c) (t : Int) : (g.skip t).Sound kind c :=
  h.advance (g.lastCall t) false

theorem Sound.restart (h : g.Sound kind c) (t : Int) : (g.restart t).Sound kind c := by
  have e : bucketAt (bucketAt t g.length) c.bucketSeconds = bucketAt t g.length := by
    rw [← h.length_eq, bucketAt_bucketAt]
  have hcounts := h.counts.reset (bucketAt t g.length)
  have hseries := h.series.reset (bucketAt t g.length)
  rw [e] at hcounts hseries
  exact ⟨h.config_eq, h.valid, hcounts, hseries⟩

theorem Sound.observe (h : g.Sound kind c) (t : Int) : (g.observe t).Sound kind c :=
  advance (g := { g with earliest := some (g.earliest.elim t fun e => min e t) })
    ⟨h.config_eq, h.valid, h.counts, h.series⟩ t true

theorem start_observe (h : g.Sound kind c) (t : Int) :
    (g.observe t).start = max g.start (bucketAt t g.length) :=
  start_advance (g := { g with earliest := some (g.earliest.elim t fun e => min e t) })
    ⟨h.config_eq, h.valid, h.counts, h.series⟩ t true

theorem Sound.contains_iff (h : g.Sound kind c) {t : Int} :
    g.counts.ring.contains t = true ↔ g.oldest ≤ bucketAt t g.length ∧
      bucketAt t g.length ≤ g.start := by
  rw [h.counts.ring.contains_iff, ← h.length_eq, ← h.latency_eq]
  rfl

/-- the last call of a bucket comes in the bucket that is the latency after it -/
theorem Sound.bucketAt_lastCall (h : g.Sound kind c) (t : Int) :
    bucketAt (g.lastCall t) g.length = bucketAt t g.length + g.latency * g.length := by
  have hpos := h.pos
  unfold Gatherer.lastCall
  rw [add_mul, one_mul]
  exact bucketAt_eq_of_mem (Int.dvd_add (dvd_bucketAt _ _) (Int.dvd_mul_left _ _)) (by omega)
    (by omega)

theorem start_room (h : g.Sound kind c) {t : Int} (ht : g.length ∣ t) (counting : Bool) :
    (g.advance (g.lastCall t) counting).start = max g.start (t + g.latency * g.length) := by
  rw [start_advance h, h.bucketAt_lastCall, bucketAt_of_dvd ht]

/-- once the clock has moved that far, the bucket that starts at `t` is in the window, unless it had
left before -/
theorem contains_room (h : g.Sound kind c) {t : Int} (ht : g.length ∣ t) (hold : g.oldest ≤ t)
    (counting : Bool) : (g.advance (g.lastCall t) counting).counts.ring.contains t = true := by
  have h' := h.advance (g.lastCall t) counting
  have hl : (g.advance (g.lastCall t) counting).length = g.length :=
    h'.length_eq.trans h.length_eq.symm
  have hlat : (g.advance (g.lastCall t) counting).latency = g.latency :=
    h'.latency_eq.trans h.latency_eq.symm
  have hnn : 0 ≤ (g.latency : Int) * g.length := Int.mul_nonneg (Int.natCast_nonneg _) h.pos.le
  rw [h'.contains_iff, hl, bucketAt_of_dvd ht]
  unfold oldest at hold ⊢
  rw [hl, hlat, start_room h ht]
  omega

theorem Sound.le_bucketAt_of_oldest_le (h : g.Sound kind c) {t : Int} (ht : g.oldest ≤ t) :
    g.oldest ≤ bucketAt t g.length :=
  le_bucketAt h.pos (Int.dvd_sub h.aligned (Int.dvd_mul_left _ _)) ht

/-- an event that is not late has its bucket once the clock has moved to it -/
theorem contains_observe (h : g.Sound kind c) {t : Int} (ht : g.oldest ≤ t) :
    (g.observe t).counts.ring.contains t = true := by
  have h' := h.observe t
  have hl : (g.observe t).length = g.length := h'.length_eq.trans h.length_eq.symm
  have hlat : (g.observe t).latency = g.latency := h'.latency_eq.trans h.latency_eq.symm
  have hnn : 0 ≤ (g.latency : Int) * g.length := Int.mul_nonneg (Int.natCast_nonneg _) h.pos.le
  have hle := h.le_bucketAt_of_oldest_le ht
  rw [h'.contains_iff]
  unfold oldest at *
  rw [hl, hlat, start_observe h]
  omega

/-! ## events and removal -/

theorem Sound.record (h : g.Sound kind c) (e : Event) (t : Int) (p : Pair) :
    (g.record e t p).Sound kind c := by
  unfold Gatherer.record
  simp only
  split
  · exact h
  · split
    · exact ⟨h.config_eq, h.valid, h.counts.modify t _, h.series⟩
    · exact ⟨h.config_eq, h.valid, h.counts.modify t _, h.series.add t p e⟩

theorem Sound.widen (h : g.Sound kind c) (p : Pair) : (g.widen p).Sound kind c :=
  ⟨h.config_eq, h.valid, h.counts, h.series⟩

theorem Sound.add (h : g.Sound kind c) (d : Directory) (e : Event) :
    (g.add d e).2.Sound kind c := by
  unfold Gatherer.add
  split
  · exact h
  · split
    · exact h
    · exact h
    · exact h
    · exact h.observe _
    · exact ((h.widen _).observe _).record e _ _

theorem Sound.retainPeople (h : g.Sound kind c) (keeps : Nat → Bool) :
    (g.retainPeople keeps).Sound kind c :=
  ⟨h.config_eq, h.valid, h.counts.retain _, h.series.retainPeople keeps⟩

theorem Sound.retainAttributes (h : g.Sound kind c) (keeps : Nat → Bool) :
    (g.retainAttributes keeps).Sound kind c :=
  ⟨h.config_eq, h.valid, h.counts.retain _, h.series.retainAttributes keeps⟩

theorem Sound.recyclePeople (h : g.Sound kind c) (ids : List Nat) :
    (g.recyclePeople ids).Sound kind c :=
  h.retainPeople _

theorem Sound.recycleAttributes (h : g.Sound kind c) (ids : List Nat) :
    (g.recycleAttributes ids).Sound kind c :=
  h.retainAttributes _

theorem Sound.removePeople (h : g.Sound kind c) (lowest : Nat) :
    (g.removePeople lowest).Sound kind c :=
  have h' := h.retainPeople fun id => decide (id < lowest)
  ⟨h'.config_eq, h'.valid, h'.counts, h'.series⟩

theorem Sound.removeAttributes (h : g.Sound kind c) (lowest : Nat) :
    (g.removeAttributes lowest).Sound kind c :=
  have h' := h.retainAttributes fun id => decide (id < lowest)
  ⟨h'.config_eq, h'.valid, h'.counts, h'.series⟩

theorem Sound.release (h : g.Sound kind c) (cutoff : Int) : (g.release cutoff).2.Sound kind c :=
  ⟨h.config_eq, h.valid, h.counts.release cutoff, h.series.release cutoff⟩

theorem Sound.resetBucket (h : g.Sound kind c) (t : Int) : (g.resetBucket t).2.Sound kind c := by
  unfold Gatherer.resetBucket
  split
  · exact ⟨h.config_eq, h.valid, h.counts.emptyBucket t, h.series.emptyBucket t⟩
  · exact h

theorem Sound.clear (h : g.Sound kind c) : g.clear.Sound kind c :=
  ⟨h.config_eq, h.valid, h.counts.clear, h.series.clear⟩

end Gatherer

end EventBuckets
