import EventBuckets.Proofs.Numeric

/-!
# The dimensions of statistics

Measurements of different dimensions are mixed in one pair, and merged from bucket to bucket.  The
sums, least and greatest values always are of the same dimensions, of none exactly as long as there
is no measurement.  So the features of an interval list the same pairs, with as many values each.

* `Summary.Kept`           a property of statistics that measurements and merging keep;
* `Series.kept_every`, `every_run`
                           the statistics of all buckets and spans have it after every run;
* `Summary.Shaped`         as many sums as least and greatest values, none without a measurement;
* `Summary.Averages`       the mean divides no sum by zero;
* `Metrics.shapes`         the pairs with a measurement, and the dimensions of their statistics;
* `Series.ReadsAlike`      the features of measurements list the same pairs with the same dimensions;
* `statistics_keep_shape`  so they do after every run.
-/

set_option linter.unusedSectionVars false

namespace EventBuckets

/-! ## what measurements and merging keep -/

/-- a property of statistics that measurements and merging keep -/
structure Summary.Kept (P : Summary → Prop) : Prop where
  empty : P ∅
  add : ∀ {s}, P s → ∀ values, P (s.add values)
  mergeWith : ∀ {s t}, P s → P t → P (s.mergeWith t)

theorem Metrics.Each.merge {P : Summary → Prop} (hP : Summary.Kept P) {m m' : Metrics}
    (h : m.Each P) (h' : m'.Each P) : (merge m m').Each P :=
  Metrics.each_merge_iff.mpr ⟨fun p s _ hs => h p s hs,
    fun p t ht => hP.mergeWith (h.getD hP.empty p) (h' p t ht)⟩

namespace Series
variable {P : Summary → Prop} {m : Measured}

theorem every_measured_iff : (measured m).Every P (fun _ => True) ↔
    m.window.ring.Each (Metrics.Each P) ∧ m.window.spans.Each (Metrics.Each P) := by
  rw [← Window.forall_contents_iff]
  refine ⟨?_, fun h => ⟨m, rfl, h, fun _ => trivial⟩⟩
  rintro ⟨_, ⟨⟩, h, -⟩
  exact h

theorem Every.measured {s : Series} {C : Binary64 → Prop} (h : s.Every P C) :
    ∃ m, s = measured m ∧ m.window.ring.Each (Metrics.Each P) ∧
      m.window.spans.Each (Metrics.Each P) := by
  obtain ⟨m, rfl, hcontents, -⟩ := h
  exact ⟨m, rfl, Window.forall_contents_iff.mp hcontents⟩

/-- the statistics of all buckets and spans have a property that measurements and merging keep -/
theorem kept_every (hP : Summary.Kept P) : Kept fun s => s.Every P fun _ => True where
  startBucket h start counting := by
    obtain ⟨m, rfl, hring, hspans⟩ := h.measured
    refine every_measured_iff.mpr ?_
    cases counting with
    | false => exact ⟨hring.roll (Metrics.each_empty _) start, hspans⟩
    | true => exact ⟨hring.roll (Metrics.each_empty _) start, hspans⟩
  add h t p e _ := by
    obtain ⟨m, rfl, hring, hspans⟩ := h.measured
    exact every_measured_iff.mpr ⟨hring.modify t (fun _ => id) fun _ hb =>
      hb.add hP.empty p fun _ hs => hP.add hs e.values, hspans⟩
  retainPeople h keeps := by
    obtain ⟨m, rfl, hring, hspans⟩ := h.measured
    exact every_measured_iff.mpr ⟨hring.mapTimed fun _ _ hb => hb.retain _, hspans⟩
  retainAttributes h keeps := by
    obtain ⟨m, rfl, hring, hspans⟩ := h.measured
    exact every_measured_iff.mpr ⟨hring.mapTimed fun _ _ hb => hb.retain _, hspans⟩
  emptyBucket h t := by
    obtain ⟨m, rfl, hring, hspans⟩ := h.measured
    exact every_measured_iff.mpr
      ⟨hring.modify t (fun _ => id) fun _ _ => Metrics.each_empty _, hspans⟩
  release h cutoff := by
    obtain ⟨m, rfl, hring, hspans⟩ := h.measured
    refine every_measured_iff.mpr ⟨?_, hspans.release cutoff⟩
    show ((m.window.release cutoff).1).ring.Each _
    rw [Window.ring_release]
    refine hring.mapTimed fun start bucket hb => ?_
    split
    · exact Metrics.each_empty _
    · exact hb
  clear h := by
    obtain ⟨m, rfl, -⟩ := h.measured
    exact every_measured_iff.mpr ⟨Ring.each_clear (Metrics.each_empty _) _, Spans.each_clear _ _⟩
  reset h t := by
    obtain ⟨m, rfl, -⟩ := h.measured
    exact every_measured_iff.mpr
      ⟨Ring.each_clear (Metrics.each_empty _) m.window.ring, Spans.each_clear _ _⟩

theorem Every.sample (hP : Summary.Kept P) {s : Series} (h : s.Every P fun _ => True)
    (start : Int) : (s.sample start).Every P fun _ => True := by
  obtain ⟨m, rfl, hring, hspans⟩ := h.measured
  refine every_measured_iff.mpr ?_
  unfold Window.sample
  split
  next bucket hb =>
    have hbucket : bucket.Each P := hring.of_get? hb
    exact ⟨hring, hspans.sample (Metrics.Each.merge hP (Metrics.each_empty _) hbucket)
      fun length o ho _ => Metrics.Each.merge hP (hspans length o ho) hbucket⟩
  next => exact ⟨hring, hspans⟩

end Series

namespace Gatherer
variable {g : Gatherer} {c : Config}

/-- after every run the statistics of all buckets and spans have such a property -/
theorem every_run {P : Summary → Prop} (hP : Summary.Kept P) (hr : Reachable .metric c g) :
    g.series.Every P fun _ => True := by
  obtain ⟨t, g₀, ops, hnew, rfl⟩ := hr
  refine (Series.kept_every hP).run (fun h start => h.sample hP start) ?_ ops
  have hvalid := valid_of_new hnew
  rw [new_eq hvalid] at hnew
  obtain rfl := Except.ok.inj hnew
  exact Series.every_measured_iff.mpr
    ⟨Ring.each_new (Metrics.each_empty _) _ _ _, Spans.each_new _ _⟩

end Gatherer

/-! ## dimensions -/

namespace Summary
variable {s t : Summary}

/-- sums, least and greatest values are as many, and none exactly without a measurement -/
structure Shaped (s : Summary) : Prop where
  min : s.min.length = s.sum.length
  max : s.max.length = s.sum.length
  empty : s.sum.length = 0 ↔ s.count = 0

/-- each sum is divided by the number of measurements, which is not zero where there is a sum -/
structure Averages (s : Summary) : Prop where
  mean : s.mean = s.sum.map fun x => x / .ofNat s.count
  divisor : s.sum ≠ [] → s.count < 2 ^ 64 → (Binary64.ofNat s.count).isZero = false

theorem kept_shaped : Kept Shaped where
  empty := ⟨rfl, rfl, iff_of_true rfl rfl⟩
  add h values := by
    unfold Summary.add
    split
    next => exact h
    next hv =>
      have hpos : 0 < values.length := List.length_pos_iff.mpr (by simpa using hv)
      refine ⟨?_, ?_, ?_⟩
      · simp only [length_zipLonger, h.min]
      · simp only [length_zipLonger, h.max]
      · simp only [length_zipLonger]
        omega
  mergeWith h h' := by
    unfold Summary.mergeWith
    have hempty := h.empty
    have hempty' := h'.empty
    refine ⟨?_, ?_, ?_⟩
    · simp only [length_zipLonger, h.min, h'.min]
    · simp only [length_zipLonger, h.max, h'.max]
    · simp only [length_zipLonger]
      omega

theorem Shaped.averages (h : s.Shaped) : s.Averages := by
  refine ⟨?_, fun hsum hlt => Binary64.isZero_ofNat ?_ hlt⟩
  · unfold Summary.mean
    split
    next hnone => rw [List.length_eq_zero_iff.mp (h.empty.mpr hnone), List.map_nil]
    next => rfl
  · exact Nat.pos_of_ne_zero fun hnone => hsum (List.length_eq_zero_iff.mp (h.empty.mpr hnone))

theorem Shaped.length_mean (h : s.Shaped) : s.mean.length = s.sum.length := by
  rw [h.averages.mean, List.length_map]

end Summary

/-! ## readouts -/

/-- the pairs of readings, each with its number of measurements and the number of its values -/
def shapesOf (readings : List (Pair × Reading)) : List (Pair × Nat × Nat) :=
  readings.map fun e => (e.1, e.2.count, e.2.value.length)

namespace Metrics
variable {m : Metrics} {p : Pair} {value : Summary → List Binary64}

/-- the pairs with a measurement, each with their number and their dimensions -/
def shapes (m : Metrics) : List (Pair × Nat × Nat) :=
  (m.byPair.toList.filter fun e => 0 < e.2.count).map fun e => (e.1, e.2.count, e.2.sum.length)

theorem shapesOf_values (h : m.Each Summary.Shaped)
    (hvalue : ∀ s : Summary, s.Shaped → (value s).length = s.sum.length) :
    shapesOf (m.values value) = m.shapes := by
  unfold shapesOf values shapes
  rw [List.map_map]
  refine List.map_congr_left fun ⟨p, s⟩ he => ?_
  have hs : m.get? p = some s :=
    Std.ExtTreeMap.mem_toList_iff_getElem?_eq_some.mp (List.mem_filter.mp he).1
  show (p, s.count, (value s).length) = (p, s.count, s.sum.length)
  rw [hvalue s (h p s hs)]

theorem mem_shapes {n dimensions : Nat} : (p, n, dimensions) ∈ m.shapes ↔
    ∃ s, m.get? p = some s ∧ 0 < s.count ∧ s.count = n ∧ s.sum.length = dimensions := by
  unfold shapes get?
  simp only [List.mem_map, List.mem_filter, Std.ExtTreeMap.mem_toList_iff_getElem?_eq_some,
    Prod.exists, Prod.mk.injEq, decide_eq_true_eq]
  constructor
  · rintro ⟨q, s, ⟨hs, hpos⟩, rfl, rfl, rfl⟩
    exact ⟨s, hs, hpos, rfl, rfl⟩
  · rintro ⟨s, hs, hpos, rfl, rfl⟩
    exact ⟨p, s, ⟨hs, hpos⟩, rfl, rfl, rfl⟩

theorem mem_keys_shapes : p ∈ m.shapes.map Prod.fst ↔ 0 < ((m.get? p).getD ∅).count := by
  simp only [List.mem_map, Prod.exists, exists_and_right, exists_eq_right, mem_shapes]
  cases hs : m.get? p with
  | none => simp [show (∅ : Summary).count = 0 from rfl]
  | some s => simp

theorem ascending_shapes (m : Metrics) :
    (m.shapes.map Prod.fst).Pairwise fun p q => compare p q = .lt := by
  unfold shapes
  rw [List.map_map, List.pairwise_map]
  exact m.byPair.ordered_keys_toList.filter _

end Metrics

/-- the features of measurements list the pairs of an interval that have one, each with the same
number of measurements and with as many values -/
structure Series.ReadsAlike (s : Series) (time length : Int) (m : Metrics) : Prop where
  ascending : (m.shapes.map Prod.fst).Pairwise fun p q => compare p q = .lt
  listed : ∀ p, p ∈ m.shapes.map Prod.fst ↔ 0 < ((m.get? p).getD ∅).count
  positive : ∀ e ∈ m.shapes, 0 < e.2.1 ∧ 0 < e.2.2
  readout : ∀ feature ∈ [Feature.mean, .min, .max, .sum], ∀ a, ∃ readings,
    s.readout? feature time length a = some (.pairReadings readings) ∧ shapesOf readings = m.shapes

namespace Measured
variable {m : Measured}

theorem get?_of_each {P : Metrics → Prop} (hempty : P ∅) (hring : m.window.ring.Each P)
    (hspans : m.window.spans.Each P) (time length : Int) :
    P ((m.window.get? time length).getD ∅) := by
  cases hm : m.window.get? time length with
  | none => exact hempty
  | some bucket =>
    unfold Window.get? at hm
    split at hm
    · exact hring.of_get? hm
    · exact hspans.of_get? hm

theorem readout?_eq {feature : Feature} {value : Summary → List Binary64}
    (h : statistic? feature = some value) (time length : Int) :
    m.readout? feature time length =
      some (.pairReadings (((m.window.get? time length).getD ∅).values value)) := by
  unfold readout?
  rw [h]
  cases m.window.get? time length with
  | none => rfl
  | some bucket => rfl

/-- only these four features are read out, each of them by as many values as there are sums -/
theorem statistic?_spec (feature : Feature) :
    (feature ∈ [Feature.mean, .min, .max, .sum] ↔ (statistic? feature).isSome = true) ∧
      ∀ value, statistic? feature = some value →
        ∀ s : Summary, s.Shaped → (value s).length = s.sum.length := by
  cases feature with
  | mean => exact ⟨by decide, fun _ hv s hs => Option.some.inj hv ▸ hs.length_mean⟩
  | min => exact ⟨by decide, fun _ hv s hs => Option.some.inj hv ▸ hs.min⟩
  | max => exact ⟨by decide, fun _ hv s hs => Option.some.inj hv ▸ hs.max⟩
  | sum => exact ⟨by decide, fun _ hv s hs => Option.some.inj hv ▸ rfl⟩
  | countByPerson | nonZeroCountByPerson | uniqueCountByPerson | countByPair =>
    exact ⟨by decide, nofun⟩

theorem readsAlike {time length : Int}
    (h : ((m.window.get? time length).getD ∅).Each Summary.Shaped) :
    (Series.measured m).ReadsAlike time length ((m.window.get? time length).getD ∅) := by
  refine ⟨Metrics.ascending_shapes _, fun p => ?_, fun ⟨p, n, dimensions⟩ he => ?_,
    fun feature hfeature a => ?_⟩
  · exact Metrics.mem_keys_shapes
  · obtain ⟨s, hs, hpos, rfl, rfl⟩ := Metrics.mem_shapes.mp he
    exact ⟨hpos, Nat.pos_of_ne_zero fun hnone => hpos.ne' ((h p s hs).empty.mp hnone)⟩
  · obtain ⟨hread, hlength⟩ := statistic?_spec feature
    obtain ⟨value, hvalue⟩ := Option.isSome_iff_exists.mp (hread.mp hfeature)
    exact ⟨_, readout?_eq hvalue time length, Metrics.shapesOf_values h (hlength value hvalue)⟩

end Measured

namespace Gatherer
variable {g : Gatherer} {c : Config}

/-- what a gatherer of measurements reads out are statistics of the interval -/
theorem exists_statistic_of_mem_readouts {m : Measured} (hm : g.series = .measured m)
    {time length : Int} {e : Feature × Readout} (he : e ∈ g.readouts time length) :
    ∃ value, Measured.statistic? e.1 = some value ∧
      e.2 = .pairReadings (((m.window.get? time length).getD ∅).values value) := by
  unfold readouts at he
  split at he
  next a ha =>
    obtain ⟨feature, -, hread⟩ := List.mem_filterMap.mp he
    obtain ⟨values, hvalues, rfl⟩ := Option.map_eq_some_iff.mp hread
    rw [hm] at hvalues
    have hvalues : m.readout? feature time length = some values := hvalues
    cases hvalue : Measured.statistic? feature with
    | none =>
      unfold Measured.readout? at hvalues
      rw [hvalue] at hvalues
      cases hvalues
    | some value =>
      rw [Measured.readout?_eq hvalue] at hvalues
      exact ⟨value, rfl, (Option.some.inj hvalues).symm⟩
  next => cases he

/-- the features of an interval are read out wherever it has counts -/
theorem features_readouts {m : Measured} (hm : g.series = .measured m) (time length : Int) :
    (g.readouts time length).map Prod.fst =
      if (g.counts.get? time length).isSome = true then
        g.features.filter fun f => f ∈ [Feature.mean, .min, .max, .sum]
      else [] := by
  cases ha : g.counts.get? time length with
  | none =>
    unfold readouts
    rw [ha]
    rfl
  | some a =>
    rw [map_fst_readouts ha, hm]
    exact List.filter_congr fun feature _ => by cases feature <;> rfl

/-- the statistics of all buckets and spans keep their shape over every run, so that they can be
averaged; the features of each interval list the same pairs with the same dimensions, and those that
are configured are read out if the interval is open -/
theorem statistics_keep_shape (hr : Reachable .metric c g) :
    ∃ m, g.series = .measured m ∧
      (∀ bucket ∈ m.window.contents, ∀ p s, bucket.get? p = some s → s.Shaped ∧ s.Averages) ∧
      ∀ time length,
        g.series.ReadsAlike time length ((m.window.get? time length).getD ∅) ∧
        (g.readouts time length).map Prod.fst =
          (if (g.counts.get? time length).isSome = true then
            g.features.filter fun f => f ∈ [Feature.mean, .min, .max, .sum]
          else []) ∧
        ∀ e ∈ g.readouts time length, ∃ readings, e.2 = .pairReadings readings ∧
          shapesOf readings = ((m.window.get? time length).getD ∅).shapes := by
  obtain ⟨m, hm, hring, hspans⟩ := (every_run Summary.kept_shaped hr).measured
  refine ⟨m, hm, fun bucket hb p s hs => ?_, fun time length => ?_⟩
  · have hshaped := Window.forall_contents_iff.mpr ⟨hring, hspans⟩ bucket hb p s hs
    exact ⟨hshaped, hshaped.averages⟩
  · have hbucket := Measured.get?_of_each (Metrics.each_empty _) hring hspans time length
    refine ⟨hm ▸ Measured.readsAlike hbucket, features_readouts hm time length, fun e he => ?_⟩
    obtain ⟨value, hvalue, heq⟩ := exists_statistic_of_mem_readouts hm he
    obtain ⟨-, hlength⟩ := Measured.statistic?_spec e.1
    exact ⟨_, heq, Metrics.shapesOf_values hbucket (hlength value hvalue)⟩

/-- measurements of one and of two values, sampled into one span, beside a pair without any -/
theorem statistics_keep_shape_ragged :
    let c : Config := { Config.default with
      bucketLength := .ofSecs 60, multiBucketLengths := [.ofSecs 120], features := [.mean] }
    let d : Directory := ⟨fun _ => .active, fun _ => .active⟩
    let event (time : Int) (person : Nat) (values : List Binary64) : Event :=
      ⟨some time, some person, some 2, values, some 1, none, [], false⟩
    let ops : List Op := [.add d (event 0 1 [1]), .add d (event 1 3 []), .sample 0,
      .add d (event 60 1 [0, 1]), .sample 60]
    ∃ (g : Gatherer) (m : Measured) (readings : List (Pair × Reading)),
      Reachable .metric c (g.run ops) ∧ (g.run ops).series = .measured m ∧
      (g.run ops).readouts 0 120 = [(.mean, .pairReadings readings)] ∧
      shapesOf readings = [(⟨1, 2⟩, 2, 2)] ∧
      ((m.window.get? 0 120).getD ∅).get? ⟨3, 2⟩ = some ∅ := by
  intro c d event ops
  -- the span, as far as it is asked for
  let known : Series → List (Pair × Nat × Nat) × Option Summary
    | .measured m =>
      (((m.window.get? 0 120).getD ∅).shapes, ((m.window.get? 0 120).getD ∅).get? ⟨3, 2⟩)
    | .occurrences _ => ([], none)
  have hknown : (new .metric c 0).toOption.map (fun g => known (g.run ops).series) =
      some ([(⟨1, 2⟩, 2, 2)], some ∅) := by
    decide +kernel
  have hopen : (new .metric c 0).toOption.map (fun g =>
      (((g.run ops).counts.get? 0 120).isSome, (g.run ops).features)) = some (true, [.mean]) := by
    decide +kernel
  obtain ⟨g₀, hnew⟩ : ∃ g, new .metric c 0 = .ok g := ⟨_, new_eq (by decide) 0⟩
  have hr : Reachable .metric c (g₀.run ops) := ⟨0, g₀, ops, hnew, rfl⟩
  obtain ⟨m, hm, -, hspan⟩ := statistics_keep_shape hr
  obtain ⟨-, hfeatures, hshapes⟩ := hspan 0 120
  rw [hnew] at hknown hopen
  have hknown : known (g₀.run ops).series = ([(⟨1, 2⟩, 2, 2)], some ∅) := Option.some.inj hknown
  rw [hm] at hknown
  obtain ⟨hshapes', hempty⟩ := Prod.mk.inj hknown
  obtain ⟨hsome, hmean⟩ := Prod.mk.inj (Option.some.inj hopen)
  rw [if_pos hsome, hmean] at hfeatures
  obtain ⟨⟨_, values⟩, hreadouts, rfl⟩ := List.map_eq_singleton_iff.mp hfeatures
  obtain ⟨readings, rfl, hread⟩ := hshapes _ (hreadouts ▸ List.mem_singleton_self _)
  exact ⟨_, m, readings, hr, hm, hreadouts, hread.trans hshapes', hempty⟩

end Gatherer

end EventBuckets
