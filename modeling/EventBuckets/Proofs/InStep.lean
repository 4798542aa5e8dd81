import EventBuckets.Proofs.History

/-!
# Counts and series in step

The counts and the series have a window each.  Where its buckets and open spans lie is decided by
the clock and by the times that are sampled and released, never by the data, so both windows lie
alike after every run, and what the one retains the other retains too.

* `Spans.start?`       where the open span of a length starts;
* `Spans.Each`         the contents of each open span have a property;
* `Frame`              where the buckets and the open spans of a window lie;
* `Gatherer.InStep`    both windows have the same frame, which is that of the clock;
* `Matched.perform`    an operation changes the open spans of both windows alike;
* `Gatherer.Retains`   both windows have the bucket of a time;
* `stays_in_step`      after every run the windows are in step, and an event that is taken in finds
                       its bucket.
-/

set_option linter.unusedSectionVars false

namespace EventBuckets

/-! ## open spans -/

namespace Spans
variable {α : Type}

def start? (s : Spans α) (length : Int) : Option Int :=
  s.byLength[length]?.join.map OpenSpan.start

/-- the later of the start of an open span and that of the span that holds `time` -/
def laterStart (time length : Int) (start : Option Int) : Int :=
  start.elim (bucketAt time length) (max (bucketAt time length))

theorem start?_new (lengths : List Int) (length : Int) :
    (new lengths : Spans α).start? length = none := by
  unfold start?
  rw [getElem?_new]
  split <;> rfl

theorem start?_clear (s : Spans α) (length : Int) : s.clear.start? length = none := by
  unfold start? clear
  rw [Std.ExtTreeMap.getElem?_map]
  cases s.byLength[length]? with
  | none => rfl
  | some span => rfl

/-- the contents of each open span have a property -/
def Each (s : Spans α) (P : α → Prop) : Prop :=
  ∀ (length : Int) (o : OpenSpan α), s.byLength[length]? = some (some o) → P o.contents

theorem each_of_start? {s : Spans α} (h : ∀ length, s.start? length = none) (P : α → Prop) :
    s.Each P := by
  intro length o ho
  have hnone := h length
  unfold start? at hnone
  rw [ho] at hnone
  cases hnone

theorem each_new (lengths : List Int) (P : α → Prop) : (new lengths : Spans α).Each P :=
  each_of_start? (start?_new lengths) P

theorem each_clear (s : Spans α) (P : α → Prop) : s.clear.Each P :=
  each_of_start? (start?_clear s) P

theorem Each.of_get? {s : Spans α} {P : α → Prop} (h : s.Each P) {length time : Int} {a : α}
    (ha : s.get? length time = some a) : P a := by
  unfold get? at ha
  split at ha
  next o ho =>
    split at ha
    · obtain rfl := Option.some.inj ha
      exact h length o ho
    · cases ha
  next => cases ha

/-- a span that ended by `cutoff` is closed, and no other one -/
theorem start?_release (s : Spans α) (cutoff length : Int) :
    (s.release cutoff).1.start? length =
      (s.start? length).filter fun start => cutoff < bucketAfter start length := by
  unfold start? release
  rw [Std.ExtTreeMap.getElem?_map]
  cases s.byLength[length]? with
  | none => rfl
  | some span =>
    cases span with
    | none => rfl
    | some open' =>
      simp only [ended, Option.map_some, Option.join_some, decide_eq_true_eq]
      by_cases h : bucketAfter open'.start length ≤ cutoff
      · rw [if_pos h, Option.filter_some_neg (by simpa using h)]
        rfl
      · rw [if_neg h, Option.filter_some_pos (by simpa using h)]
        rfl

/-- nothing is found of a span that ended by `cutoff`, and of any other one what it had -/
theorem get?_release (s : Spans α) (cutoff length time : Int) :
    (s.release cutoff).1.get? length time =
      if bucketAfter time length ≤ cutoff then none else s.get? length time := by
  unfold get? release
  rw [Std.ExtTreeMap.getElem?_map]
  cases s.byLength[length]? with
  | none => exact (ite_self none).symm
  | some span =>
    cases span with
    | none => exact (ite_self none).symm
    | some current =>
      by_cases heq : current.start = bucketAt time length
      · have hafter : bucketAfter current.start length = bucketAfter time length := by
          rw [heq, bucketAfter_bucketAt]
        by_cases hended : bucketAfter time length ≤ cutoff
        · simp [ended, hafter, hended]
        · simp [ended, hafter, hended]
      · by_cases hended : bucketAfter current.start length ≤ cutoff
        · simp [ended, hended, heq]
        · simp [ended, hended, heq]

/-- sampling leaves the later span open, whatever the bucket holds -/
theorem start?_sample [EmptyCollection α] [Merge α] (s : Spans α) (time : Int) (bucket : α)
    (length : Int) : (s.sample time bucket).start? length =
      if s.hasLength length then some (laterStart time length (s.start? length)) else none := by
  unfold start? sample hasLength
  rw [Std.ExtTreeMap.contains_eq_isSome_getElem?, Std.ExtTreeMap.getElem?_map]
  cases s.byLength[length]? with
  | none => rfl
  | some span =>
    cases span with
    | none => rfl
    | some open' =>
      simp only [sampled, laterStart, Option.map_some, Option.join_some, Option.isSome_some,
        if_true, Option.elim_some]
      split
      next heq => simp [heq]
      next hne =>
        split
        next hlt => simp [max_eq_right hlt.le]
        next hle => simp [max_eq_left (Int.not_lt.mp hle)]

theorem start?_of_not_hasLength {s : Spans α} {length : Int} (h : s.hasLength length = false) :
    s.start? length = none := by
  unfold hasLength at h
  rw [Std.ExtTreeMap.contains_eq_isSome_getElem?, Option.isSome_eq_false_iff,
    Option.isNone_iff_eq_none] at h
  unfold start?
  rw [h]
  rfl

end Spans

/-! ## frames -/

/-- where the buckets and the open spans of a window lie -/
structure Frame where
  length : Int
  capacity : Nat
  oldest : Int
  newest : Int
  spanStart? : Int → Option Int

namespace Window
variable {α : Type} [PairData α] {w : Window α} {c : Config} {start : Int}

def frame (w : Window α) : Frame :=
  ⟨w.ring.length, w.ring.capacity, w.ring.oldest, w.ring.newest, w.spans.start?⟩

theorem Fits.frame_eq (h : w.Fits c start) :
    w.frame = ⟨c.bucketSeconds, c.latencyBuckets + 1, start - c.latencyBuckets * c.bucketSeconds,
      start, w.spans.start?⟩ := by
  unfold frame
  rw [h.ring.oldest_eq, h.ring.length_eq, h.ring.capacity_eq, h.ring.newest_eq]

theorem Fits.mem_of_start? (h : w.Fits c start) {length t : Int}
    (ht : w.spans.start? length = some t) : length ∈ c.spanSeconds := by
  rw [← h.spans]
  by_contra hno
  rw [Spans.start?_of_not_hasLength (Bool.eq_false_iff.mpr hno)] at ht
  cases ht

/-- a bucket is taken into every configured span if it is retained, and into none if it is not -/
theorem Fits.start?_sample (h : w.Fits c start) (t length : Int) :
    (w.sample t).spans.start? length =
      if (start - c.latencyBuckets * c.bucketSeconds ≤ bucketAt t c.bucketSeconds ∧
          bucketAt t c.bucketSeconds ≤ start) ∧ length ∈ c.spanSeconds then
        some (Spans.laterStart t length (w.spans.start? length))
      else w.spans.start? length := by
  simp only [← h.ring.contains_iff, ← h.spans length]
  unfold Window.sample
  by_cases ht : w.ring.contains t = true
  · obtain ⟨bucket, hbucket⟩ := Ring.exists_get? h.ring.sound ht
    simp only [hbucket, ht, true_and]
    rw [Spans.start?_sample]
    split
    next => rfl
    next hno => exact (Spans.start?_of_not_hasLength (Bool.eq_false_iff.mpr hno)).symm
  · have hnone : w.ring.get? t = none := by
      rw [← Option.not_isSome_iff_eq_none, Ring.isSome_get? h.ring.sound]
      exact ht
    rw [hnone, if_neg fun hc => ht hc.1]

end Window

namespace Series
variable {s : Series} {c : Config} {start : Int} {kind : SeriesKind}

def frame : Series → Frame
  | occurrences s => s.window.frame
  | measured s => s.window.frame

def spanStart? (s : Series) : Int → Option Int := s.frame.spanStart?

theorem Fits.frame_eq (h : s.Fits c start kind) :
    s.frame = ⟨c.bucketSeconds, c.latencyBuckets + 1, start - c.latencyBuckets * c.bucketSeconds,
      start, s.spanStart?⟩ := by
  cases h with
  | occurrences window => exact window.frame_eq
  | measured window samples weight => exact window.frame_eq

theorem spanStart?_startBucket (s : Series) (t : Int) (x : SampleCounts) :
    ((s.startBucket t false).withSamples x).spanStart? = s.spanStart? := by
  cases s <;> rfl

theorem spanStart?_add (s : Series) (t : Int) (p : Pair) (e : Event) :
    (s.add t p e).spanStart? = s.spanStart? := by
  cases s with
  | occurrences s =>
    unfold Series.add Occurrences.add
    cases e.text <;> rfl
  | measured s => rfl

theorem spanStart?_retainPeople (s : Series) (keeps : Nat → Bool) :
    (s.retainPeople keeps).spanStart? = s.spanStart? := by
  cases s <;> rfl

theorem spanStart?_retainAttributes (s : Series) (keeps : Nat → Bool) :
    (s.retainAttributes keeps).spanStart? = s.spanStart? := by
  cases s <;> rfl

theorem spanStart?_emptyBucket (s : Series) (t : Int) :
    (s.emptyBucket t).spanStart? = s.spanStart? := by
  cases s <;> rfl

theorem spanStart?_release (s : Series) (cutoff length : Int) :
    (s.release cutoff).1.spanStart? length =
      (s.spanStart? length).filter fun start => cutoff < bucketAfter start length := by
  cases s with
  | occurrences s => exact s.window.spans.start?_release cutoff length
  | measured s => exact s.window.spans.start?_release cutoff length

theorem spanStart?_clear (s : Series) (length : Int) : s.clear.spanStart? length = none := by
  cases s with
  | occurrences s => exact s.window.spans.start?_clear length
  | measured s => exact s.window.spans.start?_clear length

theorem spanStart?_reset (s : Series) (t length : Int) : (s.reset t).spanStart? length = none := by
  cases s with
  | occurrences s => exact s.window.spans.start?_clear length
  | measured s => exact s.window.spans.start?_clear length

theorem Fits.spanStart?_sample (h : s.Fits c start kind) (t length : Int) :
    (s.sample t).spanStart? length =
      if (start - c.latencyBuckets * c.bucketSeconds ≤ bucketAt t c.bucketSeconds ∧
          bucketAt t c.bucketSeconds ≤ start) ∧ length ∈ c.spanSeconds then
        some (Spans.laterStart t length (s.spanStart? length))
      else s.spanStart? length := by
  cases h with
  | occurrences window => exact window.start?_sample t length
  | measured window samples weight => exact window.start?_sample t length

theorem spanStart?_new (kind : SeriesKind) (c : Config) (t length : Int) :
    (Series.new kind c t).spanStart? length = none := by
  cases kind with
  | eventRate => exact Spans.start?_new c.spanSeconds length
  | metric => exact Spans.start?_new c.spanSeconds length

/-- the single bucket that holds a time, of which the series has the data -/
def retains (s : Series) (time : Int) : Bool :=
  match s with
  | occurrences s => (s.window.ring.get? time).isSome
  | measured s => (s.window.ring.get? time).isSome

theorem Fits.retains_iff (h : s.Fits c start kind) {t : Int} :
    s.retains t = true ↔ start - c.latencyBuckets * c.bucketSeconds ≤ bucketAt t c.bucketSeconds ∧
      bucketAt t c.bucketSeconds ≤ start := by
  unfold retains
  cases h with
  | occurrences window =>
    show (Ring.get? _ t).isSome = true ↔ _
    rw [Ring.isSome_get? window.ring.sound, window.ring.contains_iff]
  | measured window samples weight =>
    show (Ring.get? _ t).isSome = true ↔ _
    rw [Ring.isSome_get? window.ring.sound, window.ring.contains_iff]

end Series

/-! ## gatherers -/

namespace Gatherer
variable {g h : Gatherer} {kind : SeriesKind} {c : Config}

/-- the windows of the counts and of the series lie alike, as the clock says -/
structure InStep (g : Gatherer) : Prop where
  aligned : g.length ∣ g.start
  length_eq : g.counts.frame.length = g.length
  capacity_eq : g.counts.frame.capacity = g.latency + 1
  oldest_eq : g.counts.frame.oldest = g.oldest
  newest_eq : g.counts.frame.newest = g.start
  series_eq : g.series.frame = g.counts.frame
  /-- an open span is one of a configured length, and starts at a multiple of it -/
  spans : ∀ length start, g.counts.frame.spanStart? length = some start →
    length ∈ g.config.spanSeconds ∧ length ∣ start

/-- the same spans are open in the counts and in the series, each on the grid of its length -/
structure Matched (g : Gatherer) : Prop where
  same : ∀ length, g.series.spanStart? length = g.counts.spans.start? length
  aligned : ∀ length start, g.counts.spans.start? length = some start → length ∣ start

theorem Matched.inStep (hm : g.Matched) (hs : g.Sound kind c) : g.InStep := by
  have hcounts := hs.counts.frame_eq
  have hseries := hs.series.frame_eq
  rw [funext hm.same, ← hcounts] at hseries
  rw [← hs.length_eq, ← hs.latency_eq] at hcounts
  refine ⟨hs.aligned, ?_, ?_, ?_, ?_, hseries, fun length start ht => ⟨?_, hm.aligned _ _ ht⟩⟩
  · rw [hcounts]
  · rw [hcounts]
  · rw [hcounts]
    rfl
  · rw [hcounts]
  · rw [hs.config_eq]
    exact hs.counts.mem_of_start? ht

theorem Matched.of_eq (hm : g.Matched)
    (hcounts : ∀ length, h.counts.spans.start? length = g.counts.spans.start? length)
    (hseries : ∀ length, h.series.spanStart? length = g.series.spanStart? length) : h.Matched :=
  ⟨fun length => by rw [hcounts, hseries, hm.same],
    fun length start ht => hm.aligned length start (hcounts length ▸ ht)⟩

theorem Matched.of_none (hcounts : ∀ length, h.counts.spans.start? length = none)
    (hseries : ∀ length, h.series.spanStart? length = none) : h.Matched :=
  ⟨fun length => by rw [hcounts, hseries], fun length start ht => by
    rw [hcounts] at ht
    cases ht⟩

theorem matched_new {t : Int} (hnew : new kind c t = .ok g) : g.Matched := by
  unfold new at hnew
  split at hnew
  · cases hnew
  · obtain rfl := Except.ok.inj hnew
    exact .of_none (Spans.start?_new c.spanSeconds) (Series.spanStart?_new kind c t)

theorem Matched.advance (hm : g.Matched) (hs : g.Sound kind c) (t : Int) (counting : Bool) :
    (g.advance t counting).Matched := by
  obtain ⟨x, -, e⟩ := advance_eq hs t counting
  rw [e]
  exact hm.of_eq (fun _ => rfl) fun length =>
    congrFun (Series.spanStart?_startBucket g.series _ x) length

theorem Matched.observe (hm : g.Matched) (hs : g.Sound kind c) (t : Int) : (g.observe t).Matched :=
  Matched.advance (g := { g with earliest := some (g.earliest.elim t fun e => min e t) })
    ⟨hm.same, hm.aligned⟩ ⟨hs.config_eq, hs.valid, hs.counts, hs.series⟩ t true

/-- sampling opens the same spans in both windows, since both retain the bucket or neither does -/
theorem Matched.sample (hm : g.Matched) (hs : g.Sound kind c) (t : Int) : (g.sample t).Matched := by
  -- the clock moves first, then the bucket is taken from where the windows lie now
  have hm' := hm.advance hs (g.lastCall t) true
  have hs' := hs.advance (g.lastCall t) true
  have hcounts := hs'.counts.start?_sample (bucketAt t (g.advance (g.lastCall t) true).length)
  have hseries := hs'.series.spanStart?_sample (bucketAt t (g.advance (g.lastCall t) true).length)
  refine ⟨fun length => ?_, fun length start ht => ?_⟩
  · show Series.spanStart? (Series.sample _ _) length = (Window.sample _ _).spans.start? length
    rw [hcounts, hseries, hm'.same]
  · change (Window.sample _ _).spans.start? length = some start at ht
    rw [hcounts] at ht
    split at ht
    next =>
      obtain rfl := Option.some.inj ht
      unfold Spans.laterStart
      cases hold : (g.advance (g.lastCall t) true).counts.spans.start? length with
      | none => exact dvd_bucketAt _ _
      | some old =>
        rcases max_choice (bucketAt (bucketAt t (g.advance (g.lastCall t) true).length) length) old
          with hmax | hmax
        · rw [Option.elim_some, hmax]
          exact dvd_bucketAt _ _
        · rw [Option.elim_some, hmax]
          exact hm'.aligned length old hold
    next => exact hm'.aligned length start ht

theorem Matched.record (hm : g.Matched) (e : Event) (t : Int) (p : Pair) :
    (g.record e t p).Matched := by
  unfold Gatherer.record
  simp only
  split
  · exact hm
  · split
    · exact hm.of_eq (fun _ => rfl) fun _ => rfl
    · exact hm.of_eq (fun _ => rfl) fun length =>
        congrFun (Series.spanStart?_add g.series t p e) length

theorem Matched.add (hm : g.Matched) (hs : g.Sound kind c) (d : Directory) (e : Event) :
    (g.add d e).2.Matched := by
  have hadds := adds g d e
  generalize g.add d e = r at hadds
  cases hadds with
  | untimed => exact hm
  | refused => exact hm
  | late => exact hm
  | ignored => exact hm
  | noted => exact hm.observe hs _
  | @taken t p =>
    have hwide : (g.widen p).Matched := ⟨hm.same, hm.aligned⟩
    exact (hwide.observe (hs.widen p) t).record e t p

theorem Matched.release (hm : g.Matched) (cutoff : Int) : (g.release cutoff).2.Matched := by
  have hcounts := g.counts.spans.start?_release cutoff
  have hseries := g.series.spanStart?_release cutoff
  refine ⟨fun length => ?_, fun length start ht => ?_⟩
  · show Series.spanStart? (g.series.release cutoff).1 length =
      (g.counts.spans.release cutoff).1.start? length
    rw [hcounts, hseries, hm.same]
  · change (g.counts.spans.release cutoff).1.start? length = some start at ht
    rw [hcounts] at ht
    exact hm.aligned length start (Option.filter_eq_some_iff.mp ht).1

theorem Matched.retainPeople (hm : g.Matched) (keeps : Nat → Bool) :
    (g.retainPeople keeps).Matched :=
  hm.of_eq (fun _ => rfl) fun length =>
    congrFun (Series.spanStart?_retainPeople g.series keeps) length

theorem Matched.retainAttributes (hm : g.Matched) (keeps : Nat → Bool) :
    (g.retainAttributes keeps).Matched :=
  hm.of_eq (fun _ => rfl) fun length =>
    congrFun (Series.spanStart?_retainAttributes g.series keeps) length

theorem Matched.resetBucket (hm : g.Matched) (t : Int) : (g.resetBucket t).2.Matched := by
  unfold Gatherer.resetBucket
  split
  · exact hm.of_eq (fun _ => rfl) fun length =>
      congrFun (Series.spanStart?_emptyBucket g.series t) length
  · exact hm

/-- an operation changes the open spans of both windows alike -/
theorem Matched.perform (hm : g.Matched) (hs : g.Sound kind c) (op : Op) :
    (g.perform op).2.Matched := by
  cases op with
  | add d e => exact hm.add hs d e
  | tick t =>
    show (g.tick t).2.Matched
    unfold Gatherer.tick
    split
    · exact hm
    · exact hm.advance hs t true
  | sample t => exact hm.sample hs t
  | skip t => exact hm.advance hs (g.lastCall t) false
  | restart t =>
    exact .of_none (Spans.start?_clear _) (Series.spanStart?_reset _ _)
  | recyclePeople ids => exact hm.retainPeople fun id => id ∉ ids
  | recycleAttributes ids => exact hm.retainAttributes fun id => id ∉ ids
  | removePeople lowest =>
    have h := hm.retainPeople fun id => decide (id < lowest)
    exact ⟨h.same, h.aligned⟩
  | removeAttributes lowest =>
    have h := hm.retainAttributes fun id => decide (id < lowest)
    exact ⟨h.same, h.aligned⟩
  | release cutoff => exact hm.release cutoff
  | resetBucket t => exact hm.resetBucket t
  | clear => exact .of_none (Spans.start?_clear _) (Series.spanStart?_clear _)

theorem Matched.run (hm : g.Matched) (hs : g.Sound kind c) (ops : List Op) :
    (g.run ops).Matched := by
  induction ops generalizing g with
  | nil => exact hm
  | cons op ops ih => exact ih (hm.perform hs op) (hs.perform op)

/-! ## events that are taken in -/

/-- both windows have the bucket that holds a time -/
def Retains (g : Gatherer) (time : Int) : Prop :=
  (g.bucket? time).isSome = true ∧ g.series.retains time = true

theorem Sound.retains_iff (hs : g.Sound kind c) {t : Int} :
    g.Retains t ↔ g.oldest ≤ bucketAt t g.length ∧ bucketAt t g.length ≤ g.start := by
  unfold Retains bucket?
  rw [Ring.isSome_get? hs.counts.ring.sound, hs.series.retains_iff, hs.contains_iff,
    ← hs.length_eq, ← hs.latency_eq]
  exact and_self_iff

theorem start_record (g : Gatherer) (e : Event) (t : Int) (p : Pair) :
    (g.record e t p).start = g.start := by
  unfold Gatherer.record
  simp only
  split
  · rfl
  · split <;> rfl

theorem Retains.record (hs : g.Sound kind c) {t : Int} (h : g.Retains t) (e : Event) (p : Pair) :
    (g.record e t p).Retains t := by
  have h' := hs.retains_iff.mp h
  rw [(hs.record e t p).retains_iff]
  unfold oldest at *
  rwa [(hs.record e t p).length_eq, (hs.record e t p).latency_eq, start_record, ← hs.length_eq,
    ← hs.latency_eq]

/-- once the clock has moved to an event that is not late, both windows have its bucket -/
theorem retains_observe (hs : g.Sound kind c) {t : Int} (ht : g.oldest ≤ t) :
    (g.observe t).Retains t := by
  rw [(hs.observe t).retains_iff, ← (hs.observe t).contains_iff]
  exact contains_observe hs ht

theorem bucket?_taking (hs : g.Sound kind c) (x : Recorded) :
    (g.taking x).bucket? x.time = (g.bucket? x.time).map fun bucket => bucket.take x := by
  show (g.counts.ring.modify x.time fun bucket => bucket.take x).get? x.time = _
  rw [Ring.get?_modify hs.counts.ring.sound, if_pos rfl]
  rfl

/-- both windows have the bucket of an event that was taken in, when it is to be recorded and
afterwards -/
theorem Sound.retains_add (hs : g.Sound kind c) {d : Directory} {e : Event} {t : Int}
    (haccepted : (g.add d e).1 = .ok true) (ht : e.time = some t)
    (husable : ∀ p ∈ e.pair?, e.isUsable d p = true) :
    (g.observe t).Retains t ∧ (g.add d e).2.Retains t := by
  have hadds := adds g d e
  generalize g.add d e = r at hadds haccepted
  cases hadds with
  | untimed => cases haccepted
  | refused => cases haccepted
  | late => cases haccepted
  | ignored _ _ hp hu => exact absurd (husable _ hp) (Bool.eq_false_iff.mp hu)
  | noted ht' hf _ =>
    obtain rfl := Option.some.inj (ht.symm.trans ht')
    have hin := fate_spec g d e t
    rw [hf] at hin
    exact ⟨retains_observe hs hin.1, retains_observe hs hin.1⟩
  | @taken _ p ht' _ hin _ _ =>
    obtain rfl := Option.some.inj (ht.symm.trans ht')
    have hwide := retains_observe (hs.widen p) hin
    exact ⟨retains_observe hs hin, hwide.record ((hs.widen p).observe t) e p⟩

theorem Alike.taking (ha : Alike g h) (x : Recorded) : Alike (g.taking x) (h.taking x) := by
  obtain ⟨pool, bounds, rfl⟩ := ha
  exact ⟨pool, bounds, rfl⟩

/-- the record of an event goes into the bucket of its time -/
theorem Sound.add_of_recorded? (hs : g.Sound kind c) {d : Directory} {e : Event} {x : Recorded}
    (hx : g.recorded? d e = some x) :
    e.time = some x.time ∧ (g.observe x.time).Retains x.time ∧
      Alike ((g.observe x.time).taking x) (g.add d e).2 := by
  have hadds := adds g d e
  unfold recorded? at hx
  generalize g.add d e = r at hadds hx
  cases hadds with
  | untimed => cases hx
  | refused => cases hx
  | late => cases hx
  | ignored ht _ hp hu => simp [ht, hp, hu] at hx
  | noted _ _ hp => simp [hp] at hx
  | @taken t p ht _ hin hp hu =>
    simp only [ht, hp, hu, if_true] at hx
    obtain ⟨rfl, -⟩ := Event.of_record? hx
    have hwide : Alike (g.observe x.time) ((g.widen p).observe x.time) :=
      Alike.observe ⟨g.pool, (g.widen p).bounds, rfl⟩ x.time
    have hrecord := record_alike e p (contains_observe (hs.widen p) hin)
    rw [hx] at hrecord
    exact ⟨ht, retains_observe hs hin, (hwide.taking x).trans hrecord.symm⟩

/-- after every run the windows are in step, and both have the bucket of every event that is taken
in with ids in use and finite values: its record, if it counts, goes into that bucket -/
theorem stays_in_step (hr : Reachable kind c g) (hs : c.bucketLength.secs.toNat < 2 ^ 63) :
    g.InStep ∧ ∀ (d : Directory) (e : Event) (t : Int), (g.add d e).1 = .ok true → e.time = some t →
      (∀ p ∈ e.pair?, e.isUsable d p = true) →
      (g.observe t).Retains t ∧ (g.add d e).2.Retains t ∧
        ∀ x ∈ g.recorded? d e,
          (g.add d e).2.bucket? t = ((g.observe t).bucket? t).map (fun bucket => bucket.take x) ∧
          (g.add d e).2.series = (g.observe t).series.taking x := by
  have hsound := hr.sound hs
  refine ⟨?_, fun d e t haccepted ht husable => ?_⟩
  · obtain ⟨time, g₀, ops, hnew, rfl⟩ := hr
    exact ((matched_new hnew).run (sound_new hs hnew) ops).inStep hsound
  · obtain ⟨hbefore, hafter⟩ := hsound.retains_add haccepted ht husable
    refine ⟨hbefore, hafter, fun x hx => ?_⟩
    obtain ⟨htime, -, pool, bounds, hadd⟩ := hsound.add_of_recorded? hx
    obtain rfl := Option.some.inj (ht.symm.trans htime)
    rw [hadd]
    exact ⟨bucket?_taking (hsound.observe x.time) x, rfl⟩

/-- with a span open, an event one bucket late is found in its bucket -/
theorem stays_in_step_after_sample :
    let c : Config :=
      { Config.default with latencyBuckets := 1, multiBucketLengths := [.ofSecs 600] }
    let d : Directory := ⟨fun _ => .active, fun _ => .active⟩
    let e : Event := ⟨some 310, some 7, some 2, [], some 3, some "home", [some "host"], false⟩
    ∃ g, new .eventRate c 300 = .ok g ∧ (g.run [.sample 0, .tick 650]).InStep ∧
      ((g.run [.sample 0, .tick 650]).add d e).2.Retains 310 := by
  intro c d e
  have hvalid : c.fault? .eventRate = none := by decide
  have hnew := new_eq hvalid 300
  have h := stays_in_step ⟨300, _, [.sample 0, .tick 650], hnew, rfl⟩ (by decide)
  exact ⟨_, hnew, h.1, (h.2 d e 310 (by decide +kernel) rfl (by decide)).2.1⟩

end Gatherer

end EventBuckets
