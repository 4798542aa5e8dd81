import EventBuckets.Proofs.InStep
import EventBuckets.Proofs.SampledSpans

/-!
# Sampling and skipping a bucket

A bucket that is due is sampled or skipped.  Both move the clock until the bucket is the oldest one,
and what is retained afterwards is the same; only sampling changes spans and sample counts.

* `Spans.MergesOnce`     each open span that does not start later has a bucket merged into it once;
* `Window.RollsOn`, `Window.SameBuckets`, `Window.SameSpans`, `Window.TakesOnce`, `Window.TakesNone`
                         how a window lies beside another one, whatever they hold;
* `Gatherer.Relates`     the windows of the counts and those of the series are related alike;
* `Gatherer.MakesRoom`   the clock has been moved on, and nothing outside of the windows changed;
* `skip_samples_nothing` skipping retains what sampling does, and leaves spans and sample counts.
-/

set_option linter.unusedSectionVars false

namespace EventBuckets

/-! ## windows -/

/-- a bucket that starts at `time` is merged once into the span of each length that it falls into,
unless a later one is open; a span that was not open holds nothing else -/
structure Spans.MergesOnce {α : Type} [EmptyCollection α] [Merge α] (time : Int) (bucket : α)
    (s s' : Spans α) : Prop where
  absent : ∀ length : Int, s.byLength[length]? = none → s'.byLength[length]? = none
  opens : ∀ length : Int, s.byLength[length]? = some none →
    s'.byLength[length]? = some (some ⟨bucketAt time length, merge ∅ bucket⟩)
  replaces : ∀ (length : Int) span, s.byLength[length]? = some (some span) →
    span.start < bucketAt time length →
    s'.byLength[length]? = some (some ⟨bucketAt time length, merge ∅ bucket⟩)
  merges : ∀ (length : Int) span, s.byLength[length]? = some (some span) →
    span.start = bucketAt time length →
    s'.byLength[length]? = some (some ⟨span.start, merge span.contents bucket⟩)
  keeps : ∀ (length : Int) span, s.byLength[length]? = some (some span) →
    bucketAt time length < span.start → s'.byLength[length]? = some (some span)

theorem Spans.mergesOnce_sample {α : Type} [EmptyCollection α] [Merge α] (s : Spans α) (time : Int)
    (bucket : α) : s.MergesOnce time bucket (s.sample time bucket) where
  absent length h := by rw [getElem?_sample, h, Option.map_none]
  opens length h := by rw [getElem?_sample, h, Option.map_some, sampled_none]
  replaces length span h hlt := by rw [getElem?_sample, h, Option.map_some, sampled_of_lt hlt]
  merges length span h heq := by rw [getElem?_sample, h, Option.map_some, sampled_of_eq heq.symm]
  keeps length span h hgt := by rw [getElem?_sample, h, Option.map_some, sampled_of_gt hgt]

namespace Window
variable {α : Type} [PairData α] {w w' : Window α} {c : Config} {start time : Int}

/-- the window lies later, with its buckets as they were and empty ones after them -/
def RollsOn (w w' : Window α) : Prop :=
  ∀ t, w'.ring.contains t = true → w'.ring.get? t = some ((w.ring.get? t).getD ∅)

/-- the window has been moved to the bucket that holds `time` -/
def RolledTo (time : Int) (w w' : Window α) : Prop := w'.ring = w.ring.roll time

def SameBuckets (w w' : Window α) : Prop := w'.ring = w.ring

def SameSpans (w w' : Window α) : Prop := w'.spans = w.spans

/-- the bucket that starts at `start` is retained as it was, and merged once into the spans -/
structure TakesOnce (start : Int) (w w' : Window α) : Prop where
  bucket : w'.ring.get? start = some ((w.ring.get? start).getD ∅)
  spans : w.spans.MergesOnce start ((w.ring.get? start).getD ∅) w'.spans

/-- the bucket that starts at `start` is not retained, and the spans are as they were -/
structure TakesNone (start : Int) (w w' : Window α) : Prop where
  bucket : w'.ring.get? start = none
  spans : w'.spans = w.spans

theorem ring_startBucket (w : Window α) (t : Int) : (w.startBucket t).ring = w.ring.roll t := rfl

theorem Fits.rollsOn (h : w.Fits c start) (t : Int) : w.RollsOn (w.startBucket t) := by
  intro u hu
  rw [ring_startBucket] at hu ⊢
  rw [Ring.get?_roll h.ring.sound t u hu]
  split
  next hle =>
    -- a bucket that is retained now was so before, as the window only moves forward
    have hin : w.ring.contains u = true := by
      have hroll := (Ring.contains_roll h.ring.sound t u).mp hu
      rw [Ring.contains_iff, Ring.oldest]
      exact ⟨(Int.sub_le_sub_right (le_max_left _ _) _).trans hroll.1, hle⟩
    obtain ⟨bucket, hbucket⟩ := Ring.exists_get? h.ring.sound hin
    rw [hbucket, Option.getD_some]
  next hlt =>
    have hout : w.ring.contains u = false := by
      rw [← Bool.not_eq_true, Ring.contains_iff]
      exact fun hin => hlt hin.2
    rw [Ring.get?_eq_none_of_not_contains hout, Option.getD_none]

theorem sameBuckets_sample (w : Window α) (time : Int) : w.SameBuckets (w.sample time) := by
  unfold SameBuckets Window.sample
  split <;> rfl

theorem Fits.takesOnce (h : w.Fits c start) {t : Int}
    (hin : (w.startBucket t).ring.contains time = true) :
    w.TakesOnce time ((w.startBucket t).sample time) := by
  have hbucket := h.rollsOn t time hin
  refine ⟨?_, ?_⟩
  · rw [sameBuckets_sample]
    exact hbucket
  · unfold Window.sample
    rw [hbucket]
    exact Spans.mergesOnce_sample _ _ _

theorem takesNone {t : Int} (hout : (w.startBucket t).ring.contains time = false) :
    w.TakesNone time ((w.startBucket t).sample time) := by
  have hnone := Ring.get?_eq_none_of_not_contains hout
  refine ⟨?_, ?_⟩
  · rw [sameBuckets_sample]
    exact hnone
  · unfold Window.sample
    rw [hnone]
    rfl

end Window

/-! ## both windows -/

/-- a relation of windows, whatever they hold, carried over to series of one kind -/
inductive Series.Relates (R : ∀ {α : Type} [PairData α], Window α → Window α → Prop) :
    Series → Series → Prop
  | occurrences {s s' : Occurrences} (window : R s.window s'.window) :
    Relates R (.occurrences s) (.occurrences s')
  | measured {s s' : Measured} (window : R s.window s'.window) (weight_eq : s'.weight = s.weight) :
    Relates R (.measured s) (.measured s')

namespace Series
variable {s s₁ s₂ : Series} {c : Config} {start : Int} {kind : SeriesKind}
  {R R' R'' : ∀ {α : Type} [PairData α], Window α → Window α → Prop}

theorem Relates.join (h₁ : s.Relates R s₁) (h₂ : s.Relates R' s₂)
    (hjoin : ∀ {α : Type} [PairData α] {w w₁ w₂ : Window α}, R w w₁ → R' w w₂ → R'' w₁ w₂) :
    s₁.Relates R'' s₂ := by
  cases h₁ with
  | occurrences window =>
    cases h₂ with
    | occurrences window' => exact .occurrences (hjoin window window')
  | measured window weight_eq =>
    cases h₂ with
    | measured window' weight_eq' =>
      exact .measured (hjoin window window') (weight_eq'.trans weight_eq.symm)

theorem Fits.relates_startBucket (h : s.Fits c start kind) (t : Int) (x : SampleCounts)
    (hR : ∀ {α : Type} [PairData α] (w : Window α), w.Fits c start → R w (w.startBucket t)) :
    s.Relates R ((s.startBucket t false).withSamples x) := by
  cases h with
  | occurrences window => exact .occurrences (hR _ window)
  | measured window samples weight => exact .measured (hR _ window) rfl

theorem Fits.relates_sample (h : s.Fits c start kind) (t u : Int) (x : SampleCounts)
    (hR : ∀ {α : Type} [PairData α] (w : Window α), w.Fits c start →
      R w ((w.startBucket t).sample u)) :
    s.Relates R (((s.startBucket t false).withSamples x).sample u) := by
  cases h with
  | occurrences window => exact .occurrences (hR _ window)
  | measured window samples weight => exact .measured (hR _ window) rfl

end Series

namespace Gatherer
variable {g h k : Gatherer} {kind : SeriesKind} {c : Config}
  {R R' R'' : ∀ {α : Type} [PairData α], Window α → Window α → Prop}

/-- the windows of the counts are related, and so are those of the series -/
structure Relates (R : ∀ {α : Type} [PairData α], Window α → Window α → Prop) (g h : Gatherer) :
    Prop where
  counts : R g.counts h.counts
  series : g.series.Relates R h.series

theorem Relates.join (hh : g.Relates R h) (hk : g.Relates R' k)
    (hjoin : ∀ {α : Type} [PairData α] {w w₁ w₂ : Window α}, R w w₁ → R' w w₂ → R'' w₁ w₂) :
    h.Relates R'' k :=
  ⟨hjoin hh.counts hk.counts, hh.series.join hk.series hjoin⟩

/-- moving the clock rolls both windows on to the same bucket -/
theorem Sound.relates_advance (hs : g.Sound kind c) (t : Int) (counting : Bool)
    (hR : ∀ {α : Type} [PairData α] (w : Window α), w.Fits c g.start →
      R w (w.startBucket (bucketAt t g.length))) : g.Relates R (g.advance t counting) := by
  obtain ⟨x, -, e⟩ := advance_eq hs t counting
  rw [e]
  exact ⟨hR g.counts hs.counts, hs.series.relates_startBucket _ x hR⟩

/-- sampling takes the same bucket in both windows -/
theorem Sound.relates_sample (hs : g.Sound kind c) (t : Int)
    (hR : ∀ {α : Type} [PairData α] (w : Window α), w.Fits c g.start →
      R w ((w.startBucket (bucketAt t g.length + g.latency * g.length)).sample
        (bucketAt t g.length))) : g.Relates R (g.sample t) := by
  have hlength : (g.advance (g.lastCall t) true).length = g.length :=
    (hs.advance _ true).length_eq.trans hs.length_eq.symm
  obtain ⟨x, -, e⟩ := advance_eq hs (g.lastCall t) true
  unfold Gatherer.sample
  simp only [hlength]
  rw [e]
  unfold Gatherer.movedTo
  rw [hs.bucketAt_lastCall]
  exact ⟨hR g.counts hs.counts, hs.series.relates_sample _ _ x hR⟩

/-! ## sampling and skipping -/

/-- the clock of `h` is that of `g`, moved on until the bucket that holds `time` is the oldest one or
has left; what stands outside of the windows is as it was -/
structure MakesRoom (g : Gatherer) (time : Int) (h : Gatherer) : Prop where
  start_eq : h.start = max g.start (bucketAt time g.length + g.latency * g.length)
  oldest_eq : h.oldest = max g.oldest (bucketAt time g.length)
  earliest_eq : h.earliest = g.earliest
  config_eq : h.config = g.config
  pool_eq : h.pool = g.pool
  bounds_eq : h.bounds = g.bounds

theorem Sound.makesRoom_advance (hs : g.Sound kind c) (t : Int) (counting : Bool) :
    g.MakesRoom t (g.advance (g.lastCall t) counting) := by
  obtain ⟨x, -, e⟩ := advance_eq hs (g.lastCall t) counting
  rw [e]
  have hstart : (g.movedTo (g.lastCall t) x).start =
      max g.start (bucketAt t g.length + g.latency * g.length) :=
    congrArg (max g.start) (hs.bucketAt_lastCall t)
  refine ⟨hstart, ?_, rfl, rfl, rfl, rfl⟩
  show (g.movedTo (g.lastCall t) x).start - g.latency * g.length = _
  rw [hstart]
  unfold oldest
  omega

/-- once there is room for the bucket that holds `t`, it is retained unless it had left before -/
theorem Sound.contains_startBucket (hs : g.Sound kind c) {α : Type} [PairData α] {w : Window α}
    (hw : w.Fits c g.start) (t : Int) :
    (w.startBucket (bucketAt t g.length + g.latency * g.length)).ring.contains
      (bucketAt t g.length) = true ↔ g.oldest ≤ bucketAt t g.length := by
  have hnn : 0 ≤ (g.latency : Int) * g.length := Int.mul_nonneg (Int.natCast_nonneg _) hs.pos.le
  have hdvd : g.length ∣ bucketAt t g.length + g.latency * g.length :=
    Int.dvd_add (dvd_bucketAt _ _) (Int.dvd_mul_left _ _)
  rw [(hw.startBucket _).ring.contains_iff, ← hs.length_eq, ← hs.latency_eq, bucketAt_of_dvd hdvd,
    bucketAt_bucketAt]
  unfold oldest
  omega

/-- after every run, sampling and skipping a bucket move the clock alike and retain the same buckets,
all of them as they were; skipping leaves spans and sample counts, and sampling merges the bucket
once into each span that is not a later one, or into none if the bucket has left -/
theorem skip_samples_nothing (hr : Reachable kind c g) (hs : c.bucketLength.secs.toNat < 2 ^ 63)
    (t : Int) :
    g.MakesRoom t (g.sample t) ∧ g.MakesRoom t (g.skip t) ∧
      g.Relates Window.RollsOn (g.skip t) ∧ (g.skip t).Relates Window.SameBuckets (g.sample t) ∧
      g.Relates Window.SameSpans (g.skip t) ∧
      (g.skip t).series.sampleCount? = g.series.sampleCount? ∧
      (g.oldest ≤ bucketAt t g.length →
        g.Relates (Window.TakesOnce (bucketAt t g.length)) (g.sample t)) ∧
      (bucketAt t g.length < g.oldest →
        g.Relates (Window.TakesNone (bucketAt t g.length)) (g.sample t)) := by
  have hsound := hr.sound hs
  have hroom := hsound.makesRoom_advance t true
  refine ⟨?_, hsound.makesRoom_advance t false, ?_, ?_, ?_, sampleCount?_advance_false _ _, ?_, ?_⟩
  · exact ⟨hroom.start_eq, hroom.oldest_eq, hroom.earliest_eq, hroom.config_eq, hroom.pool_eq,
      hroom.bounds_eq⟩
  · exact hsound.relates_advance _ false fun w hw => hw.rollsOn _
  · -- both rings are those of before, rolled on to the same bucket
    have hskip : g.Relates (Window.RolledTo (bucketAt (g.lastCall t) g.length)) (g.skip t) :=
      hsound.relates_advance _ false fun w _ => rfl
    have hsample : g.Relates (Window.RolledTo (bucketAt (g.lastCall t) g.length)) (g.sample t) := by
      rw [hsound.bucketAt_lastCall]
      exact hsound.relates_sample t fun w _ => Window.sameBuckets_sample _ _
    exact hskip.join hsample fun hw hw' => hw'.trans hw.symm
  · exact hsound.relates_advance _ false fun w _ => rfl
  · intro hin
    exact hsound.relates_sample t fun w hw =>
      hw.takesOnce ((hsound.contains_startBucket hw t).mpr hin)
  · intro hout
    refine hsound.relates_sample t fun w hw => Window.takesNone ?_
    rw [← Bool.not_eq_true, hsound.contains_startBucket hw]
    exact Int.not_le.mpr hout

/-- a bucket with a measurement is due while the span it falls into is open; an older one has left -/
theorem skip_samples_nothing_due :
    let c : Config := { Config.default with
      latencyBuckets := 1, multiBucketLengths := [.ofSecs 600], features := [.mean] }
    let d : Directory := ⟨fun _ => .active, fun _ => .active⟩
    let e (t : Int) : Event := ⟨some t, some 7, some 2, [1], some 3, none, [some "host"], false⟩
    let ops : List Op := [.add d (e 10), .sample 0, .add d (e 310), .add d (e 320), .tick 650]
    let counts (g : Gatherer) : Option (List (Pair × Nat)) :=
      (g.counts.get? 300 600).map fun a => a.counts.toList
    ∃ g, new .metric c 0 = .ok g ∧
      (g.run ops).MakesRoom 300 ((g.run ops).skip 300) ∧
      (g.run ops).Relates Window.SameSpans ((g.run ops).skip 300) ∧
      (g.run ops).Relates (Window.TakesOnce 300) ((g.run ops).sample 300) ∧
      (g.run ops).Relates (Window.TakesNone 0) ((g.run ops).sample 0) ∧
      (counts ((g.run ops).skip 300), counts ((g.run ops).sample 300)) =
        (some [(⟨7, 2⟩, 3)], some [(⟨7, 2⟩, 9)]) ∧
      (((g.run ops).skip 900).series.sampleCount? 7, ((g.run ops).sample 900).series.sampleCount? 7)
        = (some 1, some (smoothed c.sampleCountWeight 1 2)) := by
  intro c d e ops counts
  have hvalid : c.fault? .metric = none := by decide
  have hnew := new_eq hvalid 0
  have hreach : Reachable .metric c _ := ⟨0, _, ops, hnew, rfl⟩
  have hlength := (hreach.sound (by decide)).length_eq
  obtain ⟨-, hroom, -, -, hspans, -, htakes, -⟩ := skip_samples_nothing hreach (by decide) 300
  obtain ⟨-, -, -, -, -, -, -, hleft⟩ := skip_samples_nothing hreach (by decide) 0
  have hdue : bucketAt 300 c.bucketSeconds = 300 := by decide
  have hold : bucketAt 0 c.bucketSeconds = 0 := by decide
  rw [hlength, hdue] at htakes
  rw [hlength, hold] at hleft
  exact ⟨_, hnew, hroom, hspans, htakes (by decide +kernel), hleft (by decide +kernel),
    by decide +kernel, by decide +kernel⟩

end Gatherer

end EventBuckets
