import EventBuckets.Proofs.InStep
import EventBuckets.Replay

/-!
# Each bucket is passed once

A replay samples or skips one bucket after the other, from the bucket of the first record on.  The
clock runs ahead of the next bucket by the latency at most, so the next bucket is always retained,
and at the end all buckets up to the clock have been passed.

* `Run.passNext`   the gatherer once the next bucket is sampled or skipped;
* `Run.visits`     the runs that samplings in turn start from, one for each bucket;
* `gridFrom`       the starts of consecutive buckets;
* `Run.OnTime`     the next bucket follows those that were passed, neither before the window nor
                   beyond the bucket after the clock;
* `OnTime.sampleNext`, `OnTime.intake`, `OnTime.feedAll`
                   a bucket that is passed and a record that is taken keep a run on time, and so
                   does a whole replay;
* `Replay.visits_each_bucket_once`
                   the buckets that a replay passes.
-/

namespace EventBuckets

/-! ## consecutive buckets -/

/-- the starts of `n` buckets of a length, beginning with `first` -/
def gridFrom (first length : Int) (n : Nat) : List Int :=
  (List.range n).map fun (k : Nat) => first + k * length

@[simp] theorem gridFrom_zero (first length : Int) : gridFrom first length 0 = [] := rfl

theorem gridFrom_succ (first length : Int) (n : Nat) :
    gridFrom first length (n + 1) = gridFrom first length n ++ [first + n * length] := by
  simp [gridFrom, List.range_succ]

/-! ## the clock -/

namespace Gatherer
variable {g : Gatherer} {kind : SeriesKind} {c : Config}

theorem start_new {time : Int} (h : Gatherer.new kind c time = .ok g) :
    g.start = bucketAt time c.bucketSeconds := by
  unfold Gatherer.new at h
  split at h
  · cases h
  · obtain rfl := Except.ok.inj h
    rfl

/-- an event moves the clock forward, and to its time at most -/
theorem start_add (hg : g.Sound kind c) (d : Directory) {e : Event} {t : Int}
    (ht : e.time = some t) :
    g.start ≤ (g.add d e).2.start ∧ (g.add d e).2.start ≤ max g.start (bucketAt t g.length) := by
  have hadds := adds g d e
  generalize g.add d e = r at hadds
  cases hadds with
  | untimed | refused | late | ignored => exact ⟨le_rfl, le_max_left _ _⟩
  | noted ht' =>
    obtain rfl := Option.some.inj (ht.symm.trans ht')
    show g.start ≤ (g.observe t).start ∧ (g.observe t).start ≤ _
    rw [start_observe hg]
    exact ⟨le_max_left _ _, le_rfl⟩
  | @taken _ p ht' =>
    obtain rfl := Option.some.inj (ht.symm.trans ht')
    have hwide : ((g.widen p).observe t).start = max g.start (bucketAt t g.length) :=
      start_observe (hg.widen p) t
    show g.start ≤ (record _ e t p).start ∧ (record _ e t p).start ≤ _
    rw [start_record, hwide]
    exact ⟨le_max_left _ _, le_rfl⟩

end Gatherer

namespace Run
variable {r r' : Run} {kind : SeriesKind} {c : Config}

/-! ## one bucket -/

/-- the gatherer once the next bucket is sampled or skipped, before anything is released -/
def passNext (r : Run) : Gatherer :=
  if r.gatherer.available r.next then r.gatherer.sample r.next else r.gatherer.skip r.next

theorem gatherer_sampleNext (r : Run) : r.sampleNext.2.gatherer =
    if r.gatherer.available r.next then (r.passNext.release r.next).2 else r.passNext := by
  unfold sampleNext passNext
  simp only
  split <;> rfl

theorem next_sampleNext (r : Run) : r.sampleNext.2.next = r.next + r.gatherer.length := by
  unfold Run.sampleNext
  simp only
  split <;> rfl

theorem tallies_sampleNext (r : Run) :
    r.sampleNext.2.tallies.sampled + r.sampleNext.2.tallies.skipped =
      r.tallies.sampled + r.tallies.skipped + 1 := by
  unfold Run.sampleNext
  simp only
  split
  · show r.tallies.sampled + 1 + r.tallies.skipped = _
    omega
  · rfl

theorem sound_passNext (h : r.gatherer.Sound kind c) : r.passNext.Sound kind c := by
  unfold passNext
  split
  · exact h.sample r.next
  · exact h.skip r.next

theorem start_passNext (h : r.gatherer.Sound kind c) (ha : r.gatherer.length ∣ r.next) :
    r.passNext.start =
      max r.gatherer.start (r.next + r.gatherer.latency * r.gatherer.length) := by
  unfold passNext
  split
  · exact Gatherer.start_room h ha true
  · exact Gatherer.start_room h ha false

theorem sound_sampleNext (h : r.gatherer.Sound kind c) :
    r.sampleNext.2.gatherer.Sound kind c := by
  rw [gatherer_sampleNext]
  split
  · exact (sound_passNext h).release r.next
  · exact sound_passNext h

/-- releasing leaves the clock as it is -/
theorem start_sampleNext (r : Run) : r.sampleNext.2.gatherer.start = r.passNext.start := by
  rw [gatherer_sampleNext]
  split <;> rfl

/-- a run that passes its next bucket in time -/
structure InTime (r : Run) : Prop where
  /-- the bucket is sampled and released if there is data by then, and skipped otherwise -/
  handed : r.sampleNext.2.gatherer =
    if r.gatherer.available r.next then ((r.gatherer.sample r.next).release r.next).2
    else r.gatherer.skip r.next
  /-- before, the bucket has not left the window -/
  before : r.gatherer.start ≤ r.next + r.gatherer.latency * r.gatherer.length
  /-- then it is the oldest one -/
  after : r.passNext.oldest = r.next
  /-- and both windows have it -/
  retained : r.passNext.Retains r.next

/-- a bucket that has not left the window is the oldest one when it is passed -/
theorem inTime_of_le (h : r.gatherer.Sound kind c) (ha : r.gatherer.length ∣ r.next)
    (hle : r.gatherer.start ≤ r.next + r.gatherer.latency * r.gatherer.length) : r.InTime := by
  have hs := sound_passNext h
  have hlength : r.passNext.length = r.gatherer.length := hs.length_eq.trans h.length_eq.symm
  have hlatency : r.passNext.latency = r.gatherer.latency := hs.latency_eq.trans h.latency_eq.symm
  have hstart := start_passNext h ha
  rw [max_eq_right hle] at hstart
  have hnonneg : 0 ≤ (r.gatherer.latency : Int) * r.gatherer.length :=
    mul_nonneg (Int.natCast_nonneg _) h.pos.le
  have holdest : r.passNext.oldest = r.next := by
    unfold Gatherer.oldest
    rw [hstart, hlength, hlatency]
    omega
  refine ⟨?_, hle, holdest, hs.retains_iff.mpr ?_⟩
  · rw [gatherer_sampleNext]
    unfold passNext
    split <;> rfl
  · rw [holdest, hlength, bucketAt_of_dvd ha, hstart]
    omega

/-! ## buckets in turn -/

/-- the runs that `n` samplings in turn start from -/
def visits : Nat → Run → List Run
  | 0, _ => []
  | n + 1, r => r :: visits n r.sampleNext.2

/-- the runs that sampling through a bucket starts from -/
def visitsThrough (r : Run) (last : Int) : List Run := visits (r.pending last) r

/-- sampling through a bucket leaves the one after it as the next one, unless that was passed -/
theorem next_add_pending {length last : Int} (hl : r.gatherer.length = length) (hpos : 0 < length)
    (ha : length ∣ r.next) (hlast : length ∣ last) :
    r.next + r.pending last * length = max r.next (last + length) := by
  obtain ⟨n, hn⟩ := ha
  obtain ⟨m, hm⟩ := hlast
  -- the number of the buckets passed, where `n` and `m` are those of the next and the last one
  have hpending : (r.pending last : Int) = max 0 (m - n + 1) := by
    unfold Run.pending
    rw [hl, hn, hm, bucketsBetween_mul hpos]
    by_cases hlt : m < n
    · rw [if_pos ((mul_lt_mul_iff_right₀ hpos).mpr hlt)]
      omega
    · rw [if_neg (mt (mul_lt_mul_iff_right₀ hpos).mp hlt)]
      omega
  rw [hpending, hn, hm, mul_comm _ length, ← mul_add,
    show length * m + length = length * (m + 1) by ring, ← mul_max_of_nonneg _ _ hpos.le]
  congr 1
  omega

/-- the buckets that were passed follow each other from the first one on, each was passed in time
and wrote its lines, and the next one is neither before the window nor beyond the bucket after the
clock -/
structure OnTime (r : Run) (kind : SeriesKind) (c : Config) (first : Int) (seen : List Run)
    (written : List FeatureLine) : Prop where
  sound : r.gatherer.Sound kind c
  first_aligned : c.bucketSeconds ∣ first
  next_eq : r.next = first + seen.length * c.bucketSeconds
  starts_eq : seen.map next = gridFrom first c.bucketSeconds seen.length
  first_le : first ≤ r.gatherer.start
  reach : r.gatherer.start ≤ r.next + c.latencyBuckets * c.bucketSeconds
  near : r.next ≤ r.gatherer.start + c.bucketSeconds
  passed : ∀ v ∈ seen, v.InTime
  written_eq : written = seen.flatMap fun v => v.sampleNext.1
  tallied : r.tallies.sampled + r.tallies.skipped = seen.length

variable {first : Int} {seen : List Run} {written : List FeatureLine}

theorem OnTime.aligned (h : r.OnTime kind c first seen written) : c.bucketSeconds ∣ r.next := by
  rw [h.next_eq]
  exact Int.dvd_add h.first_aligned (Int.dvd_mul_left _ _)

theorem OnTime.inTime (h : r.OnTime kind c first seen written) : r.InTime := by
  apply inTime_of_le h.sound
  · rw [h.sound.length_eq]
    exact h.aligned
  · rw [h.sound.length_eq, h.sound.latency_eq]
    exact h.reach

/-- the next bucket is passed, and the one after it is next -/
theorem OnTime.sampleNext (h : r.OnTime kind c first seen written) :
    r.sampleNext.2.OnTime kind c first (seen ++ [r]) (written ++ r.sampleNext.1) := by
  have hpos := h.sound.counts.ring.pos
  have hnonneg : 0 ≤ (c.latencyBuckets : Int) * c.bucketSeconds :=
    mul_nonneg (Int.natCast_nonneg _) hpos.le
  have hstart := start_passNext h.sound (h.sound.length_eq ▸ h.aligned)
  rw [h.sound.length_eq, h.sound.latency_eq, max_eq_right h.reach] at hstart
  refine ⟨sound_sampleNext h.sound, h.first_aligned, ?_, ?_, ?_, ?_, ?_, ?_, ?_, ?_⟩
  · rw [next_sampleNext, h.sound.length_eq, h.next_eq, List.length_append, List.length_singleton]
    push_cast
    ring
  · rw [List.map_append, h.starts_eq, List.length_append, List.length_singleton, gridFrom_succ,
      ← h.next_eq]
    rfl
  · rw [start_sampleNext, hstart]
    exact h.first_le.trans h.reach
  · rw [start_sampleNext, hstart, next_sampleNext, h.sound.length_eq]
    omega
  · rw [start_sampleNext, hstart, next_sampleNext, h.sound.length_eq]
    omega
  · intro v hv
    rcases List.mem_append.mp hv with hv | hv
    · exact h.passed v hv
    · obtain rfl := List.mem_singleton.mp hv
      exact h.inTime
  · rw [List.flatMap_append, ← h.written_eq, List.flatMap_singleton]
  · rw [tallies_sampleNext, h.tallied, List.length_append, List.length_singleton]

theorem OnTime.sampleTimes (n : Nat) {lines : Array FeatureLine}
    (h : r.OnTime kind c first seen (written ++ lines.toList)) :
    (sampleTimes n lines r).2.OnTime kind c first (seen ++ visits n r)
      (written ++ (sampleTimes n lines r).1.toList) := by
  induction n generalizing lines r seen with
  | zero =>
    show r.OnTime kind c first (seen ++ []) _
    rw [List.append_nil]
    exact h
  | succ n ih =>
    have hstep : r.sampleNext.2.OnTime kind c first (seen ++ [r])
        (written ++ (lines ++ r.sampleNext.1).toList) := by
      simpa using h.sampleNext
    have hrest := ih hstep
    rw [List.append_assoc] at hrest
    exact hrest

theorem OnTime.sampleThrough (h : r.OnTime kind c first seen written) {last : Int}
    (hlast : c.bucketSeconds ∣ last) :
    (r.sampleThrough last).2.OnTime kind c first (seen ++ r.visitsThrough last)
        (written ++ (r.sampleThrough last).1.toList) ∧
      (r.sampleThrough last).2.next = max r.next (last + c.bucketSeconds) := by
  have hbare : r.OnTime kind c first seen (written ++ (#[] : Array FeatureLine).toList) := by
    simpa using h
  have hrest := hbare.sampleTimes (r.pending last)
  have hlength : (visits (r.pending last) r).length = r.pending last := by
    have go (n : Nat) (r : Run) : (visits n r).length = n := by
      induction n generalizing r with
      | zero => rfl
      | succ n ih => exact congrArg Nat.succ (ih r.sampleNext.2)
    exact go _ r
  refine ⟨hrest, hrest.next_eq.trans ?_⟩
  rw [List.length_append, hlength, ← next_add_pending h.sound.length_eq h.sound.counts.ring.pos
    h.aligned hlast, h.next_eq]
  push_cast
  ring

/-! ## taking records -/

/-- the record that a line of input leaves behind, if there is one -/
def recorded? (r : Run) (x : Record) : Option Recorded :=
  (usable? r.gatherer.kind x (register r.registry x).1).bind fun e =>
    r.gatherer.recorded? (register r.registry x).2.directory e

theorem time_usable? {kind : SeriesKind} {x : Record} {e e' : Event}
    (h : usable? kind x e = some e') : e'.time = e.time := by
  unfold usable? Series.interpret? at h
  split at h
  next raw _ =>
    cases kind with
    | eventRate =>
      obtain rfl := Option.some.inj h
      rfl
    | metric =>
      obtain ⟨values, -, rfl⟩ := Option.map_eq_some_iff.mp h
      rfl
  next =>
    obtain rfl := Option.some.inj h
    rfl

/-- a line of input is either of no use or adds an event of its time -/
theorem intake_spec {x : Record} (h : r.intake x = .ok r') :
    r'.next = r.next ∧ ((r'.gatherer = r.gatherer ∧ r.recorded? x = none) ∨
      ∃ d e, e.time = some x.time ∧ r'.gatherer = (r.gatherer.add d e).2 ∧
        r.recorded? x = r.gatherer.recorded? d e) := by
  unfold Run.intake at h
  unfold recorded?
  simp only at h
  split at h
  next hnone =>
    obtain rfl := Except.ok.inj h
    rw [hnone]
    exact ⟨rfl, .inl ⟨rfl, rfl⟩⟩
  next e he =>
    split at h
    · cases h
    next inTime g hadd =>
      obtain rfl := Except.ok.inj h
      refine ⟨rfl, .inr ⟨_, e, time_usable? he, ?_, by rw [he]; rfl⟩⟩
      exact (congrArg Prod.snd hadd).symm

/-- a line of input is counted, but no bucket is passed -/
theorem tallies_intake {x : Record} (h : r.intake x = .ok r') :
    r'.tallies.sampled = r.tallies.sampled ∧ r'.tallies.skipped = r.tallies.skipped := by
  unfold Run.intake at h
  simp only at h
  split at h
  · obtain rfl := Except.ok.inj h
    exact ⟨rfl, rfl⟩
  · split at h
    · cases h
    · obtain rfl := Except.ok.inj h
      exact ⟨rfl, rfl⟩

/-- a run that has counted a further record -/
def noting (r : Run) : Run :=
  { r with tallies := { r.tallies with records := r.tallies.records + 1 } }

/-- what a record finds: the buckets that it pushes out of the window are sampled -/
def ready (r : Run) (x : Record) : Array FeatureLine × Run :=
  { r with tallies := { r.tallies with records := r.tallies.records + 1 } }.sampleUntil x.time

theorem feed_eq (r : Run) (x : Record) : r.feed x = ((r.ready x).1, (r.ready x).2.intake x) := rfl

/-- the runs that the samplings before a record start from -/
def visitsBefore (r : Run) (x : Record) : List Run :=
  r.noting.visitsThrough (bucketAt x.time r.gatherer.length
    - (r.gatherer.latency + 1) * r.gatherer.length)

theorem OnTime.ready (h : r.OnTime kind c first seen written) (x : Record) :
    (r.ready x).2.OnTime kind c first (seen ++ r.visitsBefore x)
        (written ++ (r.ready x).1.toList) ∧
      bucketAt x.time c.bucketSeconds - c.latencyBuckets * c.bucketSeconds ≤ (r.ready x).2.next := by
  have hnoted : r.noting.OnTime kind c first seen written :=
    ⟨h.sound, h.first_aligned, h.next_eq, h.starts_eq, h.first_le, h.reach, h.near, h.passed,
      h.written_eq, h.tallied⟩
  have hlast : c.bucketSeconds ∣ bucketAt x.time r.gatherer.length
      - (r.gatherer.latency + 1) * r.gatherer.length := by
    rw [h.sound.length_eq]
    exact Int.dvd_sub (dvd_bucketAt _ _) (Int.dvd_mul_left _ _)
  obtain ⟨hready, hnext⟩ := hnoted.sampleThrough hlast
  refine ⟨hready, le_trans (le_of_eq ?_) (le_trans (le_max_right _ _) hnext.ge)⟩
  rw [h.sound.length_eq, h.sound.latency_eq]
  ring

/-- a record leaves the next bucket as it is, and does not move the window past it -/
theorem OnTime.intake (h : r.OnTime kind c first seen written) {x : Record}
    (hnext : bucketAt x.time c.bucketSeconds - c.latencyBuckets * c.bucketSeconds ≤ r.next)
    (hok : r.intake x = .ok r') : r'.OnTime kind c first seen written := by
  obtain ⟨hcursor, hgatherer⟩ := intake_spec hok
  obtain ⟨hsampled, hskipped⟩ := tallies_intake hok
  have hclock : r'.gatherer.Sound kind c ∧ r.gatherer.start ≤ r'.gatherer.start ∧
      r'.gatherer.start ≤ max r.gatherer.start (bucketAt x.time c.bucketSeconds) := by
    rcases hgatherer with ⟨hsame, -⟩ | ⟨d, e, ht, hadd, -⟩
    · rw [hsame]
      exact ⟨h.sound, le_rfl, le_max_left _ _⟩
    · have hstart := Gatherer.start_add h.sound d ht
      rw [h.sound.length_eq] at hstart
      rw [hadd]
      exact ⟨h.sound.add d e, hstart⟩
  obtain ⟨hs, hforward, hstart⟩ := hclock
  have hreach := h.reach
  have hnear := h.near
  refine ⟨hs, h.first_aligned, hcursor.trans h.next_eq, h.starts_eq, h.first_le.trans hforward,
    ?_, ?_, h.passed, h.written_eq, ?_⟩
  · rw [hcursor]
    omega
  · rw [hcursor]
    omega
  · rw [hsampled, hskipped]
    exact h.tallied

end Run

/-! ## replays -/

namespace Replay
variable {r r' : Replay} {kind : SeriesKind} {c : Config} {first : Int} {seen : List Run}
  {written : List FeatureLine}

/-- the runs that the samplings of a replay start from, those at its end among them -/
def visits (r : Replay) : List Record → List Run
  | [] =>
    match r.run with
    | some run => run.visitsThrough run.gatherer.start
    | none => []
  | x :: xs =>
    match r.begun x.time with
    | .error _ => []
    | .ok run =>
      run.visitsBefore x ++
        match r.feed x with
        | (_, .ok r) => r.visits xs
        | (_, .error _) => []

/-- a replay begins without a run, and with a valid configuration -/
theorem of_new (hnew : Replay.new kind c = .ok r) : c.fault? kind = none ∧ r = ⟨kind, c, none⟩ := by
  unfold Replay.new at hnew
  split at hnew
  · cases hnew
  next hvalid => exact ⟨hvalid, (Except.ok.inj hnew).symm⟩

theorem exists_begun {x : Record} {lines : Array FeatureLine} (h : r.feed x = (lines, .ok r')) :
    ∃ run, r.begun x.time = .ok run := by
  unfold Replay.feed at h
  split at h
  · cases h
  next run hrun => exact ⟨run, hrun⟩

theorem visits_cons {x : Record} {run : Run} (hrun : r.begun x.time = .ok run)
    {lines : Array FeatureLine} (h : r.feed x = (lines, .ok r')) (xs : List Record) :
    r.visits (x :: xs) = run.visitsBefore x ++ r'.visits xs := by
  show (match r.begun x.time with | .error _ => [] | .ok run => _) = _
  rw [hrun]
  simp only [h]

theorem onTime_start (hs : c.bucketLength.secs.toNat < 2 ^ 63) {time : Int} {run : Run}
    (h : Run.start kind c time = .ok run) :
    run.OnTime kind c (bucketAt time c.bucketSeconds) [] [] := by
  unfold Run.start at h
  split at h
  next g hg =>
    obtain rfl := Except.ok.inj h
    have hsound := Gatherer.sound_new hs hg
    have hpos := hsound.counts.ring.pos
    have hnonneg : 0 ≤ (c.latencyBuckets : Int) * c.bucketSeconds :=
      mul_nonneg (Int.natCast_nonneg _) hpos.le
    have hstart := Gatherer.start_new hg
    refine ⟨hsound, dvd_bucketAt _ _, ?_, rfl, hstart.ge, ?_, ?_, ?_, rfl, rfl⟩
    · show g.start = _
      rw [hstart, List.length_nil, Nat.cast_zero, Int.zero_mul, Int.add_zero]
    · show g.start ≤ g.start + _
      omega
    · show g.start ≤ g.start + _
      omega
    · intro v hv
      cases hv
  · cases h

/-- a record that is taken keeps the run on time that it finds -/
theorem onTime_feed {x : Record} {run : Run} (hrun : r.begun x.time = .ok run)
    (h : run.OnTime kind c first seen written) {lines : Array FeatureLine}
    (hok : r.feed x = (lines, .ok r')) :
    ∃ run', r'.run = some run' ∧
      run'.OnTime kind c first (seen ++ run.visitsBefore x) (written ++ lines.toList) := by
  obtain ⟨hready, hnext⟩ := h.ready x
  unfold Replay.feed at hok
  rw [hrun] at hok
  simp only [Run.feed_eq] at hok
  split at hok
  next lines' run' heq =>
    obtain ⟨rfl, hintake⟩ := Prod.mk.inj heq
    obtain ⟨rfl, hr⟩ := Prod.mk.inj hok
    obtain rfl := Except.ok.inj hr
    exact ⟨run', rfl, hready.intake hnext hintake⟩
  · cases hok

/-- once all records are taken and the rest is sampled, the bucket after the clock is next -/
theorem onTime_feedAll {xs : List Record} {run : Run} (hrun : r.run = some run)
    {before lines : Array FeatureLine} (h : run.OnTime kind c first seen before.toList)
    (hok : feedAll before r xs = (lines, .ok r')) :
    ∃ run', r'.run = some run' ∧
      run'.drain.2.OnTime kind c first (seen ++ r.visits xs) (lines ++ run'.drain.1).toList ∧
      run'.drain.2.next = run'.gatherer.start + c.bucketSeconds ∧ first ≤ run'.gatherer.start := by
  -- along the records, with what has been passed and written by then
  induction xs generalizing r run seen before with
  | nil =>
    obtain ⟨rfl, hr⟩ := Prod.mk.inj hok
    obtain rfl := Except.ok.inj hr
    obtain ⟨hdrained, hnext⟩ := h.sampleThrough h.sound.counts.ring.aligned
    refine ⟨run, hrun, ?_, hnext.trans (max_eq_right h.near), h.first_le⟩
    unfold visits
    rw [hrun, Array.toList_append]
    exact hdrained
  | cons x xs ih =>
    have hbegun : r.begun x.time = .ok run := by
      unfold begun
      rw [hrun]
    unfold Replay.feedAll at hok
    split at hok
    next lines' r₁ hfeed =>
      obtain ⟨run₁, hrun₁, hnext⟩ := onTime_feed hbegun h hfeed
      have hwritten : run₁.OnTime kind c first (seen ++ run.visitsBefore x)
          (before ++ lines').toList := by
        rw [Array.toList_append]
        exact hnext
      have hrest := ih hrun₁ hwritten hok
      rw [List.append_assoc] at hrest
      rw [visits_cons hbegun hfeed]
      exact hrest
    · cases hok

/-- the runs that pass a bucket in a replay pass those from the bucket of the first record on to the
one that is current when the records end, one after the other and in time, and write the lines -/
theorem visits_each_bucket_once (hs : c.bucketLength.secs.toNat < 2 ^ 63)
    (hnew : Replay.new kind c = .ok r) {x : Record} {xs : List Record} {lines : Array FeatureLine}
    (hok : feedAll #[] r (x :: xs) = (lines, .ok r')) :
    ∃ run, r'.run = some run ∧ bucketAt x.time c.bucketSeconds ≤ run.gatherer.start ∧
      (r.visits (x :: xs)).map Run.next = gridFrom (bucketAt x.time c.bucketSeconds) c.bucketSeconds
        ((run.gatherer.start - bucketAt x.time c.bucketSeconds) / c.bucketSeconds + 1).toNat ∧
      ((r'.finish.2.tallies.sampled + r'.finish.2.tallies.skipped : Nat) : Int) =
        (run.gatherer.start - bucketAt x.time c.bucketSeconds) / c.bucketSeconds + 1 ∧
      (∀ v ∈ r.visits (x :: xs), v.InTime) ∧
      (lines ++ r'.finish.1).toList = (r.visits (x :: xs)).flatMap fun v => v.sampleNext.1 := by
  obtain ⟨-, rfl⟩ := of_new hnew
  -- the first record begins the run
  unfold Replay.feedAll at hok
  split at hok
  next lines₀ r₁ hfeed =>
    obtain ⟨run₀, hbegun⟩ := exists_begun hfeed
    have hstart : Run.start kind c x.time = .ok run₀ := hbegun
    obtain ⟨run₁, hrun₁, hfirst⟩ := onTime_feed hbegun (onTime_start hs hstart) hfeed
    rw [List.nil_append, List.nil_append] at hfirst
    have hwritten : run₁.OnTime kind c (bucketAt x.time c.bucketSeconds) (run₀.visitsBefore x)
        (#[] ++ lines₀ : Array FeatureLine).toList := by
      rw [Array.empty_append]
      exact hfirst
    obtain ⟨run, hrun, hlast, hnext, hle⟩ := onTime_feedAll hrun₁ hwritten hok
    rw [← visits_cons hbegun hfeed] at hlast
    generalize visits _ (x :: xs) = seen at hlast ⊢
    -- as many buckets as there are from the first one to that of the clock
    have hpos := hlast.sound.counts.ring.pos
    have hcount : (seen.length : Int) =
        (run.gatherer.start - bucketAt x.time c.bucketSeconds) / c.bucketSeconds + 1 := by
      have hdistance : run.gatherer.start - bucketAt x.time c.bucketSeconds =
          (seen.length - 1) * c.bucketSeconds := by
        rw [sub_one_mul]
        have hend := hnext.symm.trans hlast.next_eq
        omega
      rw [hdistance, Int.mul_ediv_cancel _ hpos.ne', Int.sub_add_cancel]
    have hfinish : r'.finish = (run.drain.1, { r' with run := some run.drain.2 }) := by
      unfold Replay.finish
      rw [hrun]
    refine ⟨run, hrun, hle, ?_, ?_, hlast.passed, ?_⟩
    · rw [← hcount, Int.toNat_natCast]
      exact hlast.starts_eq
    · rw [← hcount, hfinish]
      exact congrArg Nat.cast hlast.tallied
    · rw [hfinish]
      exact hlast.written_eq
  · cases hok

end Replay

end EventBuckets
