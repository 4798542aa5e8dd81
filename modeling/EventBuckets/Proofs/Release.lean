import EventBuckets.Proofs.Iteration

/-!
# Letting go of what ended

A release empties the single buckets that ended by a time and closes the open spans that did, in the
counts and in the series.  A bucket is emptied only if its own kind of data is there, but a bucket
that is left alone says nothing either.

* `ended_released`, `releasable_released`
                          what was released once is not released again, nor what ended before;
* `Window.get?_release`   what a window has of an interval afterwards;
* `Gatherer.Vacant`       nothing is said of the interval of a length that holds a time;
* `Gatherer.SameAt`       the same is said of it as before;
* `Gatherer.LetGo`        what ended by a time is vacant and the rest is the same, so that there is
                          nothing left to release;
* `lets_go_of_what_ended` a release comes to that after every run.
-/

set_option linter.unusedSectionVars false

namespace EventBuckets

/-! ## spans -/

namespace Spans
variable {α : Type} {cutoff cutoff' : Int}

theorem ended_of_le (hle : cutoff' ≤ cutoff) {length : Int} {span : Option (OpenSpan α)}
    (h : ended cutoff' length span = true) : ended cutoff length span = true := by
  cases span with
  | none => exact h
  | some current => exact decide_eq_true ((of_decide_eq_true h).trans hle)

/-- once the spans that ended by `cutoff` are closed, none is open that ended before -/
theorem ended_released (hle : cutoff' ≤ cutoff) (length : Int) (span : Option (OpenSpan α)) :
    ended cutoff' length (if ended cutoff length span then none else span) = false := by
  split
  next => rfl
  next hopen => exact Bool.eq_false_iff.mpr fun h => hopen (ended_of_le hle h)

theorem release_release (s : Spans α) (hle : cutoff' ≤ cutoff) :
    (s.release cutoff).1.release cutoff' = ((s.release cutoff).1, 0) := by
  refine Prod.ext (congrArg Spans.mk ?_) ?_
  · apply Std.ExtTreeMap.ext_getElem?
    intro length
    show ((s.byLength.map _).map _)[length]? = (s.byLength.map _)[length]?
    rw [Std.ExtTreeMap.getElem?_map, Std.ExtTreeMap.getElem?_map, Option.map_map]
    refine congrArg (Option.map · _) (funext fun span => ?_)
    exact if_neg (Bool.eq_false_iff.mp (ended_released hle length span))
  · refine List.countP_eq_zero.mpr fun e he => Bool.eq_false_iff.mp ?_
    change e ∈ (s.byLength.map _).toList at he
    rw [Std.ExtTreeMap.toList_map] at he
    obtain ⟨e, -, rfl⟩ := List.mem_map.mp he
    exact ended_released hle e.1 e.2

end Spans

/-! ## windows -/

/-- the open spans that ended by `cutoff` are closed -/
def Frame.release (f : Frame) (cutoff : Int) : Frame :=
  { f with
    spanStart? := fun length =>
      (f.spanStart? length).filter fun start => cutoff < bucketAfter start length }

namespace Window
variable {α : Type} [PairData α] {w : Window α} {c : Config} {start cutoff cutoff' t length : Int}

theorem releasable_of_le (hle : cutoff' ≤ cutoff) {bucket : α}
    (h : releasable length cutoff' t bucket = true) : releasable length cutoff t bucket = true := by
  obtain ⟨hended, hdata⟩ := Bool.and_eq_true_iff.mp h
  exact Bool.and_eq_true_iff.mpr ⟨decide_eq_true ((of_decide_eq_true hended).trans hle), hdata⟩

/-- once the buckets that ended by `cutoff` are emptied, none has data that ended before -/
theorem releasable_released (hα : PairData.EmptyLaws α) (hle : cutoff' ≤ cutoff) (bucket : α) :
    releasable length cutoff' t (if releasable length cutoff t bucket then ∅ else bucket) =
      false := by
  split
  next =>
    unfold releasable
    rw [hα.isEmpty_empty]
    exact Bool.and_false _
  next hkept => exact Bool.eq_false_iff.mpr fun h => hkept (releasable_of_le hle h)

theorem frame_release (w : Window α) (cutoff : Int) :
    (w.release cutoff).1.frame = w.frame.release cutoff := by
  unfold frame Frame.release Ring.oldest
  rw [ring_release, Ring.capacity_mapTimed]
  exact congrArg (Frame.mk _ _ _ _) (funext (w.spans.start?_release cutoff))

/-- of the interval of a length that holds a time, a single bucket is emptied if it ended and has
data, and a span is gone if it ended -/
theorem get?_release (hs : w.ring.Sound) (cutoff t length : Int) :
    (w.release cutoff).1.get? t length =
      if length = w.ring.length then
        (w.ring.get? t).map fun bucket => if releasable length cutoff t bucket then ∅ else bucket
      else if bucketAfter t length ≤ cutoff then none else w.spans.get? length t := by
  show (if length = w.ring.length then (w.release cutoff).1.ring.get? t
    else (w.spans.release cutoff).1.get? length t) = _
  rw [ring_release, Ring.get?_mapTimed hs, Spans.get?_release]
  unfold releasable
  rw [bucketAfter_bucketAt]
  split
  next heq => rw [heq]
  next => rfl

/-- an interval that ends later is as it was -/
theorem get?_release_of_lt (hs : w.ring.Sound) (hlt : cutoff < bucketAfter t length) :
    (w.release cutoff).1.get? t length = w.get? t length := by
  rw [get?_release hs, if_neg hlt.not_ge]
  unfold get? releasable
  rw [decide_eq_false hlt.not_ge]
  simp only [Bool.false_and, Bool.false_eq_true, if_false, Option.map_id']

/-- there is no data in an interval that ended -/
theorem isEmpty_of_get?_release (hα : PairData.EmptyLaws α) (hs : w.ring.Sound)
    (hle : bucketAfter t length ≤ cutoff) {a : α}
    (ha : (w.release cutoff).1.get? t length = some a) : PairData.isEmpty a = true := by
  rw [get?_release hs, if_pos hle] at ha
  split at ha
  next =>
    obtain ⟨bucket, -, rfl⟩ := Option.map_eq_some_iff.mp ha
    split
    next => exact hα.isEmpty_empty
    next hkept =>
      -- the bucket has ended, so only its being empty can have kept it
      unfold releasable at hkept
      rw [decide_eq_true hle, Bool.true_and] at hkept
      simpa using hkept
  next => cases ha

theorem Fits.release_release (hf : w.Fits c start) (hα : PairData.EmptyLaws α)
    (hle : cutoff' ≤ cutoff) :
    (w.release cutoff).1.release cutoff' = ((w.release cutoff).1, 0) := by
  have hspans := w.spans.release_release hle
  have hring : ((w.release cutoff).1.release cutoff').1.ring = (w.release cutoff).1.ring := by
    refine (((hf.release cutoff).release cutoff').ring).ext (hf.release cutoff).ring fun t _ => ?_
    rw [ring_release, Ring.get?_mapTimed (hf.release cutoff).ring.sound, ring_release,
      Ring.get?_mapTimed hf.ring.sound, Option.map_map]
    refine congrArg (Option.map · _) (funext fun bucket => ?_)
    exact if_neg (Bool.eq_false_iff.mp (releasable_released hα hle bucket))
  have hnone : ((w.release cutoff).1.ring.entries.countP fun e =>
      releasable w.ring.length cutoff' e.1 e.2) = 0 := by
    rw [ring_release, Ring.entries_mapTimed hf.ring.sound, List.countP_map]
    exact List.countP_eq_zero.mpr fun e _ =>
      Bool.eq_false_iff.mp (releasable_released hα hle e.2)
  refine Prod.ext ?_ ?_
  · show (⟨((w.release cutoff).1.release cutoff').1.ring,
      ((w.spans.release cutoff).1.release cutoff').1⟩ : Window α) = _
    rw [hring, hspans]
    rfl
  · show _ + ((w.spans.release cutoff).1.release cutoff').2 = 0
    rw [hspans]
    exact hnone

end Window

/-! ## series -/

theorem Aggregates.personCounts_of_counts {a : Aggregates} (h : a.counts = ∅) :
    a.personCounts = [] := by
  unfold Aggregates.personCounts
  rw [h]
  rfl

namespace Series
variable {s s' : Series} {c : Config} {start cutoff cutoff' t length : Int} {kind : SeriesKind}

/-- there is no data of the interval of a length that holds a time -/
def Vacant (s : Series) (time length : Int) : Prop :=
  match s with
  | occurrences s => ∀ d, s.window.get? time length = some d → d.byPair = ∅
  | measured s => ∀ m, s.window.get? time length = some m → m.byPair = ∅

/-- two series of a kind have the same data of the interval of a length that holds a time -/
inductive SameAt (time length : Int) : Series → Series → Prop
  | occurrences {s s' : Occurrences}
      (same : s'.window.get? time length = s.window.get? time length) :
      SameAt time length (.occurrences s) (.occurrences s')
  | measured {s s' : Measured}
      (same : s'.window.get? time length = s.window.get? time length) :
      SameAt time length (.measured s) (.measured s')

/-- no feature has a value where there is neither data nor a count -/
theorem Vacant.isEmpty_readout (h : s.Vacant t length) {a : Aggregates} (ha : a.counts = ∅)
    {feature : Feature} {values : Readout}
    (hvalues : s.readout? feature t length a = some values) : values.isEmpty = true := by
  cases s with
  | occurrences s =>
    change s.readout? feature t length a = some values at hvalues
    have htexts : ((s.window.get? t length).map DistinctTexts.personCounts).getD [] = [] := by
      cases hd : s.window.get? t length with
      | none => rfl
      | some d =>
        show (DistinctTexts.byPerson d).toList.map _ = []
        unfold DistinctTexts.byPerson
        rw [h d hd]
        rfl
    unfold Occurrences.readout? at hvalues
    rw [Aggregates.personCounts_of_counts ha, ha, htexts] at hvalues
    split at hvalues
    all_goals cases hvalues
    all_goals rfl
  | measured s =>
    change s.readout? feature t length = some values at hvalues
    unfold Measured.readout? at hvalues
    obtain ⟨value, -, rfl⟩ := Option.map_eq_some_iff.mp hvalues
    cases hm : s.window.get? t length with
    | none => rfl
    | some m =>
      show (Metrics.values m value).isEmpty = true
      unfold Metrics.values
      rw [h m hm]
      rfl

theorem SameAt.readout?_eq (h : SameAt t length s s') (feature : Feature) (a : Aggregates) :
    s'.readout? feature t length a = s.readout? feature t length a := by
  cases h with
  | occurrences same =>
    show Occurrences.readout? _ feature t length a = Occurrences.readout? _ feature t length a
    unfold Occurrences.readout?
    rw [same]
  | measured same =>
    show Measured.readout? _ feature t length = Measured.readout? _ feature t length
    unfold Measured.readout?
    rw [same]

theorem sampleCount?_release (s : Series) (cutoff : Int) :
    (s.release cutoff).1.sampleCount? = s.sampleCount? := by
  cases s <;> rfl

theorem frame_release (s : Series) (cutoff : Int) :
    (s.release cutoff).1.frame = s.frame.release cutoff := by
  cases s with
  | occurrences s => exact s.window.frame_release cutoff
  | measured s => exact s.window.frame_release cutoff

theorem Fits.sameAt_release (hf : s.Fits c start kind) (hlt : cutoff < bucketAfter t length) :
    SameAt t length s (s.release cutoff).1 := by
  cases hf with
  | occurrences window => exact .occurrences (Window.get?_release_of_lt window.ring.sound hlt)
  | measured window samples weight =>
    exact .measured (Window.get?_release_of_lt window.ring.sound hlt)

theorem Fits.vacant_release (hf : s.Fits c start kind) (hle : bucketAfter t length ≤ cutoff) :
    (s.release cutoff).1.Vacant t length := by
  cases hf with
  | occurrences window =>
    exact fun d hd => Std.ExtTreeMap.isEmpty_iff.mp
      (Window.isEmpty_of_get?_release DistinctTexts.emptyLaws window.ring.sound hle hd)
  | measured window samples weight =>
    exact fun m hm => Std.ExtTreeMap.isEmpty_iff.mp
      (Window.isEmpty_of_get?_release Metrics.emptyLaws window.ring.sound hle hm)

theorem Fits.release_release (hf : s.Fits c start kind) (hle : cutoff' ≤ cutoff) :
    (s.release cutoff).1.release cutoff' = ((s.release cutoff).1, 0) := by
  cases hf with
  | @occurrences s window =>
    have hw := window.release_release DistinctTexts.emptyLaws hle
    show (Series.occurrences ⟨((s.window.release cutoff).1.release cutoff').1⟩,
      ((s.window.release cutoff).1.release cutoff').2) = _
    rw [hw]
    rfl
  | @measured s window samples weight =>
    have hw := window.release_release Metrics.emptyLaws hle
    show (Series.measured { s with window := ((s.window.release cutoff).1.release cutoff').1 },
      ((s.window.release cutoff).1.release cutoff').2) = _
    rw [hw]
    rfl

end Series

/-! ## gatherers -/

namespace Gatherer
variable {g h : Gatherer} {kind : SeriesKind} {c : Config} {cutoff t length : Int}

/-- nothing is said of the interval of a length that holds a time -/
structure Vacant (g : Gatherer) (time length : Int) : Prop where
  counts : ∀ a, g.counts.get? time length = some a →
    a.counts = ∅ ∧ a.nulls = ∅ ∧ ∀ f ∈ a.influencers, f = ∅
  series : g.series.Vacant time length
  features : ∀ r ∈ g.readouts time length, r.2.isEmpty = true

/-- the same is said of the interval of a length that holds a time -/
structure SameAt (time length : Int) (g h : Gatherer) : Prop where
  counts : h.counts.get? time length = g.counts.get? time length
  series : Series.SameAt time length g.series h.series
  features : h.readouts time length = g.readouts time length

/-- `h` is `g` without what ended by `cutoff`, in the same place; there is nothing left to release -/
structure LetGo (cutoff : Int) (g h : Gatherer) : Prop where
  vacant : ∀ time length, bucketAfter time length ≤ cutoff → h.Vacant time length
  same : ∀ time length, cutoff < bucketAfter time length → SameAt time length g h
  counts_frame : h.counts.frame = g.counts.frame.release cutoff
  series_frame : h.series.frame = g.series.frame.release cutoff
  samples : h.series.sampleCount? = g.series.sampleCount?
  config_eq : h.config = g.config
  start_eq : h.start = g.start
  oldest_eq : h.oldest = g.oldest
  earliest_eq : h.earliest = g.earliest
  again : ∀ cutoff' ≤ cutoff, h.release cutoff' = (0, h)

theorem vacant_of_data (hcounts : ∀ a, g.counts.get? t length = some a → a.isEmpty = true)
    (hseries : g.series.Vacant t length) : g.Vacant t length := by
  refine ⟨fun a ha => Aggregates.isEmpty_iff.mp (hcounts a ha), hseries, fun r hr => ?_⟩
  unfold readouts at hr
  split at hr
  next a ha =>
    obtain ⟨feature, -, hr⟩ := List.mem_filterMap.mp hr
    obtain ⟨values, hvalues, rfl⟩ := Option.map_eq_some_iff.mp hr
    exact hseries.isEmpty_readout (Aggregates.isEmpty_iff.mp (hcounts a ha)).1 hvalues
  next => cases hr

theorem sameAt_of_data (hfeatures : h.features = g.features)
    (hcounts : h.counts.get? t length = g.counts.get? t length)
    (hseries : Series.SameAt t length g.series h.series) : SameAt t length g h := by
  refine ⟨hcounts, hseries, ?_⟩
  unfold readouts
  rw [hcounts, hfeatures]
  simp only [hseries.readout?_eq]

/-- what is held after texts are let go is what was held before -/
theorem prune_prune (g : Gatherer) : g.prune.prune = g.prune := by
  have hcopies : (g.prune.pool.prune fun x => g.heldTexts.contains x.text).1 = g.prune.pool := by
    show TextPool.mk ((g.pool.copies.filter _).filter _) _ = TextPool.mk (g.pool.copies.filter _) _
    refine congrArg (TextPool.mk · _) (Std.ExtTreeMap.ext_getElem? fun text => ?_)
    rw [Std.ExtTreeMap.getElem?_filter', Std.ExtTreeMap.getElem?_filter', Option.filter_filter]
    simp only [Bool.and_self]
  show ({ g.prune with pool := (g.prune.pool.prune fun x => g.heldTexts.contains x.text).1 } :
    Gatherer) = g.prune
  rw [hcopies]

theorem Sound.release_release (hs : g.Sound kind c) {cutoff' : Int} (hle : cutoff' ≤ cutoff) :
    (g.release cutoff).2.release cutoff' = (0, (g.release cutoff).2) := by
  have hcounts := hs.counts.release_release Aggregates.emptyLaws hle
  have hseries := hs.series.release_release hle
  show (((g.counts.release cutoff).1.release cutoff').2 +
      ((g.series.release cutoff).1.release cutoff').2,
    ({ (g.release cutoff).2 with
        counts := ((g.counts.release cutoff).1.release cutoff').1
        series := ((g.series.release cutoff).1.release cutoff').1 } : Gatherer).prune) = _
  rw [hcounts, hseries]
  exact congrArg (Prod.mk 0) (prune_prune { g with
    counts := (g.counts.release cutoff).1
    series := (g.series.release cutoff).1 })

/-- after every run, releasing drops what ended by `cutoff` and nothing else, and drops it at once -/
theorem lets_go_of_what_ended (hr : Reachable kind c g) (hs : c.bucketLength.secs.toNat < 2 ^ 63)
    (cutoff : Int) : g.LetGo cutoff (g.release cutoff).2 := by
  have hsound := hr.sound hs
  have hring := hsound.counts.ring.sound
  have hkind : (g.release cutoff).2.kind = g.kind :=
    (hsound.release cutoff).kind_eq.trans hsound.kind_eq.symm
  have hfeatures : (g.release cutoff).2.features = g.features :=
    congrArg g.config.featuresFor hkind
  exact {
    vacant := fun t length hle => vacant_of_data
      (fun a ha => Window.isEmpty_of_get?_release Aggregates.emptyLaws hring hle ha)
      (hsound.series.vacant_release hle)
    same := fun t length hlt => sameAt_of_data hfeatures
      (Window.get?_release_of_lt hring hlt) (hsound.series.sameAt_release hlt)
    counts_frame := g.counts.frame_release cutoff
    series_frame := g.series.frame_release cutoff
    samples := g.series.sampleCount?_release cutoff
    config_eq := rfl
    start_eq := rfl
    oldest_eq := rfl
    earliest_eq := rfl
    again := fun cutoff' hle => hsound.release_release hle }

/-- the oldest bucket ends just at a cutoff before the epoch, and the next one does not -/
theorem lets_go_of_what_ended_before_epoch :
    let c : Config := { Config.default with
      latencyBuckets := 2, multiBucketLengths := [.ofSecs 600], features := [.countByPair] }
    let d : Directory := ⟨fun _ => .active, fun _ => .active⟩
    let e (t : Int) : Event :=
      ⟨some t, some 7, some 2, [], some 3, some "home", [some "host"], false⟩
    let ops : List Op := [.add d (e (-1200)), .add d (e (-900)), .sample (-1200)]
    ∃ g, new .eventRate c (-1200) = .ok g ∧
      (g.run ops).LetGo (-900) ((g.run ops).release (-900)).2 ∧
      ((g.run ops).pairCounts (-1200), (g.run ops).pairCounts (-900)) =
        ([(⟨7, 2⟩, 3)], [(⟨7, 2⟩, 3)]) ∧
      (((g.run ops).release (-900)).2.pairCounts (-1200),
        ((g.run ops).release (-900)).2.pairCounts (-900)) = ([], [(⟨7, 2⟩, 3)]) := by
  intro c d e ops
  have hvalid : c.fault? .eventRate = none := by decide
  have hnew := new_eq hvalid (-1200)
  have h := lets_go_of_what_ended ⟨-1200, _, ops, hnew, rfl⟩ (by decide) (-900)
  exact ⟨_, hnew, h, by decide +kernel, by decide +kernel⟩

end Gatherer

end EventBuckets
