import EventBuckets.Proofs.Runs

/-!
# Jumps of the clock are exact

Of a long jump only the first buckets and the last one are opened.  That is the same as opening
every bucket on the way: once as many buckets have been opened as are retained, all of them are
empty, so no further one counts as a sample when it leaves.

* `Gatherer.openAll`     opens buckets one at a time;
* `Gatherer.startsUpTo`  the starts of the buckets on the way to a time;
* `openNext_of_far`      past a full window, opening one more bucket changes no sample count;
* `advance_eq_openAll`   moving the clock opens every bucket on the way;
* `advance_advance`      of two moves of the clock only the later time counts.
-/

set_option linter.unusedSectionVars false

namespace EventBuckets

namespace Ring
variable {α : Type} [EmptyCollection α] {r : Ring α} {length start : Int} {latency : Nat}

theorem Covers.contains_oldest (h : r.Covers length latency start) :
    r.contains r.oldest = true := by
  have hnonneg : 0 ≤ latency * length := mul_nonneg (Int.natCast_nonneg latency) h.pos.le
  rw [h.contains_iff, h.oldest_eq, bucketAt_of_dvd (Int.dvd_sub h.aligned (Int.dvd_mul_left _ _))]
  omega

/-- rolled past a full window, a ring holds empty buckets only -/
theorem Covers.get?_roll_of_far (h : r.Covers length latency start) {t : Int}
    (hfar : start + (latency + 1) * length ≤ bucketAt t length) {u : Int}
    (hu : (r.roll t).contains u = true) : (r.roll t).get? u = some ∅ := by
  have hlo := ((h.roll t).contains_iff.mp hu).1
  rw [get?_roll h.sound t u hu, if_neg]
  rw [h.length_eq, h.newest_eq]
  have hpos := h.pos
  have hmax : bucketAt t length ≤ max start (bucketAt t length) := le_max_right _ _
  rw [add_mul, one_mul] at hfar
  omega

end Ring

theorem Metrics.personCounts_empty : (∅ : Metrics).personCounts = [] := by
  decide +kernel

namespace Series
variable {s : Series} {c : Config} {start : Int} {kind : SeriesKind}

/-- past a full window, no bucket that leaves counts as a sample -/
theorem startBucket_of_far (h : s.Fits c start kind) {t u : Int}
    (hfar : start + (c.latencyBuckets + 1) * c.bucketSeconds ≤ bucketAt t c.bucketSeconds)
    (htu : bucketAt t c.bucketSeconds ≤ bucketAt u c.bucketSeconds) (x : SampleCounts)
    (counting : Bool) :
    ((s.startBucket t false).withSamples x).startBucket u counting =
      (s.startBucket u false).withSamples x := by
  cases h with
  | occurrences window =>
    exact congrArg (fun w => occurrences ⟨w⟩) (Window.startBucket_startBucket window htu)
  | @measured s window samples weight =>
    let m : Measured := { s with window := s.window.startBucket t, samples := x }
    have hold : m.window.ring.get? m.window.ring.oldest = some ∅ :=
      window.ring.get?_roll_of_far hfar (window.ring.roll t).contains_oldest
    have hleaving : m.leaving = [] := by
      unfold Measured.leaving
      rw [hold]
      exact Metrics.personCounts_empty
    have hsame : m.startBucket u counting = { m with window := m.window.startBucket u } := by
      cases counting with
      | false => rfl
      | true =>
        show { m.updateSamples with window := m.updateSamples.window.startBucket u } = _
        unfold Measured.updateSamples
        rw [hleaving]
        rfl
    show measured (m.startBucket u counting) = _
    rw [hsame]
    exact congrArg (fun w => measured { s with window := w, samples := x })
      (Window.startBucket_startBucket window htu)

end Series

/-! ## gatherers -/

namespace Gatherer
variable {g : Gatherer} {kind : SeriesKind} {c : Config}

/-- opens buckets one at a time -/
def openAll (g : Gatherer) (starts : List Int) (counting : Bool) : Gatherer :=
  starts.foldl (fun h start => h.openBucket start counting) g

/-- the starts of the buckets after the current one up to the one that holds `time`, ascending -/
def startsUpTo (g : Gatherer) (time : Int) : List Int :=
  (List.range (bucketsBetween g.start (bucketAt time g.length) g.length).toNat).map
    fun (k : Nat) => g.start + (k + 1) * g.length

/-- the number of buckets on the way to a later time -/
theorem Sound.steps_eq (h : g.Sound kind c) {n a : Int} (hn : g.start = g.length * n) {t : Int}
    (ha : bucketAt t g.length = g.length * a) :
    bucketsBetween g.start (bucketAt t g.length) g.length = a - n := by
  rw [hn, ha, bucketsBetween_mul h.pos]

/-- the starts on the way are those of all buckets after the current one, none left out -/
theorem mem_startsUpTo (h : g.Sound kind c) {s t : Int} :
    s ∈ g.startsUpTo t ↔ g.length ∣ s ∧ g.start < s ∧ s ≤ t := by
  have hpos := h.pos
  obtain ⟨n, hn⟩ := h.aligned
  obtain ⟨a, ha⟩ := dvd_bucketAt t g.length
  unfold startsUpTo
  rw [h.steps_eq hn ha, List.mem_map]
  constructor
  · rintro ⟨k, hk, rfl⟩
    have hk : (k : Int) + 1 ≤ a - n := by
      have := List.mem_range.mp hk
      omega
    refine ⟨Int.dvd_add h.aligned (Int.dvd_mul_left _ _), ?_, ?_⟩
    · have := mul_pos (show (0 : Int) < k + 1 by omega) hpos
      omega
    · refine le_trans ?_ (bucketAt_le t hpos)
      rw [hn, ha, mul_comm, ← add_mul, mul_comm]
      exact mul_le_mul_of_nonneg_left (by omega) hpos.le
  · rintro ⟨⟨b, rfl⟩, hlt, hle⟩
    rw [hn] at hlt
    have hnb : n < b := lt_of_mul_lt_mul_left hlt hpos.le
    have hle := le_bucketAt hpos (Int.dvd_mul_right g.length b) hle
    rw [ha] at hle
    have hba : b ≤ a := le_of_mul_le_mul_left hle hpos
    refine ⟨(b - n - 1).toNat, List.mem_range.mpr (by omega), ?_⟩
    have hb : ((b - n - 1).toNat : Int) + 1 = b - n := by omega
    rw [hb, hn, mul_comm _ g.length, ← mul_add]
    congr 1
    omega

theorem openNext_eq_openAll (g : Gatherer) (n : Nat) (counting : Bool) :
    g.openNext n counting =
      g.openAll ((List.range n).map fun (k : Nat) => g.start + (k + 1) * g.length) counting := by
  unfold openNext openAll
  rw [List.foldl_map]

/-- past a full window, opening one more bucket changes no sample count -/
theorem openBucket_of_far (h : g.Sound kind c) {t u : Int}
    (hfar : g.start + (g.latency + 1) * g.length ≤ bucketAt t g.length)
    (htu : bucketAt t g.length ≤ bucketAt u g.length) (x : SampleCounts) (counting : Bool)
    (start : Int) :
    { (g.movedTo t x).openBucket (bucketAt u g.length) counting with start } =
      { g.movedTo u x with start } := by
  have hfar' : g.start + (c.latencyBuckets + 1) * c.bucketSeconds ≤
      bucketAt (bucketAt t g.length) c.bucketSeconds := by
    rwa [← h.length_eq, ← h.latency_eq, bucketAt_bucketAt]
  have htu' : bucketAt (bucketAt t g.length) c.bucketSeconds ≤
      bucketAt (bucketAt u g.length) c.bucketSeconds := by
    rwa [← h.length_eq, bucketAt_bucketAt, bucketAt_bucketAt]
  have hseries := Series.startBucket_of_far h.series hfar' htu' x counting
  have hcounts := Window.startBucket_startBucket h.counts htu'
  unfold openBucket movedTo
  simp only [hseries, hcounts]

/-- once a full window has been opened, however many more buckets are opened makes no difference to
the sample counts -/
theorem openNext_of_far (h : g.Sound kind c) (counting : Bool) :
    ∃ x : SampleCounts, ∀ n, g.latency + 1 ≤ n → ∀ start,
      { g.openNext n counting with start } =
        { g.movedTo (g.start + n * g.length) x with start } := by
  have hpos := h.pos
  obtain ⟨x, -, hx⟩ := openNext_eq h (g.latency + 1) counting
  refine ⟨x, fun n hn => ?_⟩
  -- from a full window on each step leaves `x` as it is: the bucket that leaves is empty
  induction n, hn using Nat.le_induction with
  | base => exact hx
  | succ n hn ih =>
    intro start
    have hn' : ((g.latency : Int) + 1) * g.length ≤ n * g.length :=
      mul_le_mul_of_nonneg_right (by omega) hpos.le
    have hstep : (n : Int) * g.length ≤ (n + 1 : Nat) * g.length :=
      mul_le_mul_of_nonneg_right (by omega) hpos.le
    have hfar := openBucket_of_far h (t := g.start + n * g.length)
      (u := g.start + (n + 1 : Nat) * g.length) (by rw [h.aligned_add]; omega)
      (by rw [h.aligned_add, h.aligned_add]; omega) x counting start
    rw [h.aligned_add] at hfar
    rw [openNext_succ, ← hfar]
    exact congrArg (fun k => ({ k.openBucket (g.start + (n + 1 : Nat) * g.length) counting with
      start } : Gatherer)) (ih g.start)

/-- past a full window, opening the last bucket is opening all up to it -/
theorem openBucket_openNext_of_far (h : g.Sound kind c) (counting : Bool) {n : Nat}
    (hn : g.latency + 1 ≤ n) (start : Int) :
    { (g.openNext (g.latency + 1) counting).openBucket (g.start + n * g.length) counting with
      start } = { g.openNext n counting with start } := by
  obtain ⟨x, hx⟩ := openNext_of_far h counting
  have hle : ((g.latency + 1 : Nat) : Int) * g.length ≤ n * g.length :=
    mul_le_mul_of_nonneg_right (by omega) h.pos.le
  have hfar := openBucket_of_far h (t := g.start + (g.latency + 1 : Nat) * g.length)
    (u := g.start + n * g.length) (by rw [h.aligned_add]; push_cast; omega)
    (by rw [h.aligned_add, h.aligned_add]; omega) x counting start
  rw [h.aligned_add] at hfar
  rw [hx n hn start, ← hfar]
  exact congrArg (fun k => ({ k.openBucket (g.start + n * g.length) counting with
    start } : Gatherer)) (hx (g.latency + 1) le_rfl g.start)

/-- the jump opens what is opened bucket by bucket -/
theorem advance_eq_openNext (h : g.Sound kind c) (t : Int) (counting : Bool) :
    g.advance t counting =
      { g.openNext (bucketsBetween g.start (bucketAt t g.length) g.length).toNat counting with
        start := max g.start (bucketAt t g.length) } := by
  obtain ⟨n, hn⟩ := h.aligned
  obtain ⟨a, ha⟩ := dvd_bucketAt t g.length
  have hsteps := h.steps_eq hn ha
  unfold advance
  simp only [hsteps]
  split
  next hle =>
    have hzero : (a - n).toNat = 0 := by omega
    have hmax : max g.start (bucketAt t g.length) = g.start := by
      rw [max_eq_left]
      rw [hn, ha]
      exact mul_le_mul_of_nonneg_left (by omega) h.pos.le
    rw [hzero, hmax]
    rfl
  next hlt =>
    have hmax : max g.start (bucketAt t g.length) = bucketAt t g.length := by
      rw [max_eq_right]
      rw [hn, ha]
      exact mul_le_mul_of_nonneg_left (by omega) h.pos.le
    rw [hmax]
    split
    next hfar =>
      have hmin : min (a - n).toNat (g.latency + 1) = g.latency + 1 := by omega
      have hlast : bucketAt t g.length = g.start + ((a - n).toNat : Int) * g.length := by
        have hcast : ((a - n).toNat : Int) = a - n := by omega
        rw [hcast, ha, hn, mul_comm (a - n), mul_sub]
        omega
      rw [hmin, ← openBucket_openNext_of_far h counting (n := (a - n).toNat) (by omega), ← hlast]
    next hnear =>
      have hmin : min (a - n).toNat (g.latency + 1) = (a - n).toNat := by omega
      rw [hmin]

/-- moving the clock opens every bucket on the way, one at a time -/
theorem advance_eq_openAll (h : g.Sound kind c) (t : Int) (counting : Bool) :
    g.advance t counting = { g.openAll (g.startsUpTo t) counting with
      start := max g.start (bucketAt t g.length) } := by
  rw [advance_eq_openNext h, openNext_eq_openAll]
  rfl

/-! ## one move after another -/

theorem length_openNext (g : Gatherer) (n : Nat) (counting : Bool) :
    (g.openNext n counting).length = g.length := by
  induction n with
  | zero => rfl
  | succ n ih =>
    rw [openNext_succ]
    exact ih

/-- opening buckets from a later one on is going on where the first ones ended -/
theorem openNext_openNext (g : Gatherer) (m n : Nat) (counting : Bool) (start : Int) :
    { ({ g.openNext m counting with
        start := g.start + m * g.length } : Gatherer).openNext n counting with start } =
      { g.openNext (m + n) counting with start } := by
  induction n with
  | zero => rfl
  | succ n ih =>
    let h : Gatherer := { g.openNext m counting with start := g.start + m * g.length }
    have hnext : h.start + (n + 1 : Nat) * h.length = g.start + (m + n + 1 : Nat) * g.length := by
      have hlength : h.length = g.length := length_openNext g m counting
      rw [hlength]
      show g.start + m * g.length + (n + 1 : Nat) * g.length = _
      rw [add_assoc, ← add_mul]
      push_cast
      rw [add_assoc]
    rw [← Nat.add_assoc, openNext_succ, openNext_succ, ← hnext]
    exact congrArg (fun k => ({ k.openBucket (h.start + (n + 1 : Nat) * h.length) counting with
      start } : Gatherer)) ih

/-- the clock moves by whole buckets -/
theorem advance_eq_steps (h : g.Sound kind c) (t : Int) (counting : Bool) {n a : Int}
    (hn : g.start = g.length * n) (ha : bucketAt t g.length = g.length * a) :
    g.advance t counting = { g.openNext (a - n).toNat counting with
      start := g.start + (a - n).toNat * g.length } := by
  have hstart : max g.start (bucketAt t g.length) = g.start + (a - n).toNat * g.length := by
    rw [hn, ha, ← mul_max_of_nonneg n a h.pos.le, mul_comm _ g.length, ← mul_add]
    congr 1
    omega
  rw [advance_eq_openNext h, h.steps_eq hn ha, hstart]

/-- of two moves of the clock only the later time counts -/
theorem advance_advance (h : g.Sound kind c) (s t : Int) (counting : Bool) :
    (g.advance s counting).advance t counting = g.advance (max s t) counting := by
  have hpos := h.pos
  obtain ⟨n, hn⟩ := h.aligned
  obtain ⟨a, ha⟩ := dvd_bucketAt s g.length
  obtain ⟨b, hb⟩ := dvd_bucketAt t g.length
  have hlater : bucketAt (max s t) g.length = g.length * max a b := by
    have hmax := Monotone.map_max (f := fun t => bucketAt t g.length)
      (fun _ _ => bucketAt_mono hpos) (a := s) (b := t)
    rw [hmax, ha, hb, mul_max_of_nonneg a b hpos.le]
  have hstart : (g.advance s counting).start = g.length * max n a := by
    rw [start_advance h, hn, ha, mul_max_of_nonneg n a hpos.le]
  have hlength : (g.advance s counting).length = g.length :=
    (h.advance s counting).length_eq.trans h.length_eq.symm
  have hsteps : (a - n).toNat + (b - max n a).toNat = (max a b - n).toNat := by omega
  have hlast : (g.advance s counting).start + (b - max n a).toNat * g.length =
      g.start + (max a b - n).toNat * g.length := by
    rw [hstart, hn, mul_comm _ g.length, mul_comm _ g.length, ← mul_add, ← mul_add]
    congr 1
    omega
  rw [advance_eq_steps (h.advance s counting) t counting (by rw [hlength]; exact hstart)
      (by rw [hlength]; exact hb), advance_eq_steps h (max s t) counting hn hlater, hlength, hlast,
    advance_eq_steps h s counting hn ha, ← hsteps]
  exact openNext_openNext g (a - n).toNat (b - max n a).toNat counting _

theorem advance_of_lt (h : g.Sound kind c) {t : Int} (ht : t < g.start + g.length)
    (counting : Bool) : g.advance t counting = g := by
  have hle := bucketAt_le_of_lt h.pos h.aligned ht
  obtain ⟨n, hn⟩ := h.aligned
  obtain ⟨a, ha⟩ := dvd_bucketAt t g.length
  rw [hn, ha] at hle
  have hsteps := h.steps_eq hn ha
  have hna : a ≤ n := le_of_mul_le_mul_left hle h.pos
  unfold advance
  simp only [hsteps]
  rw [if_pos (by omega)]

/-! ## sequences of times -/

/-- whether none of a sequence of times is refused when the clock is moved to them in turn -/
def inTime (g : Gatherer) : List Int → Bool
  | [] => true
  | t :: ts => (g.tick t).1 && (g.tick t).2.inTime ts

theorem tick_of_inTime {t : Int} (ht : (g.tick t).1 = true) :
    g.oldest ≤ t ∧ g.tick t = (true, g.advance t true) := by
  unfold tick at *
  split at ht
  · cases ht
  next hin => exact ⟨Int.not_lt.mp hin, if_neg hin⟩

theorem tick_of_le {t : Int} (ht : g.oldest ≤ t) : g.tick t = (true, g.advance t true) :=
  if_neg (Int.not_lt.mpr ht)

/-- times in turn move the clock as the latest of them does -/
theorem run_tick (h : g.Sound kind c) {ts : List Int} (hts : g.inTime ts = true) {latest : Int}
    (hlatest : ts.max? = some latest) :
    g.run (ts.map .tick) = (g.tick latest).2 ∧ (g.tick latest).1 = true := by
  induction ts generalizing g latest with
  | nil => cases hlatest
  | cons t ts ih =>
    unfold inTime at hts
    rw [Bool.and_eq_true] at hts
    obtain ⟨hin, htick⟩ := tick_of_inTime hts.1
    rw [htick] at hts
    have hrun : g.run ((t :: ts).map .tick) = (g.advance t true).run (ts.map .tick) := by
      rw [List.map_cons, run_cons]
      show (g.tick t).2.run _ = _
      rw [htick]
    rw [List.max?_cons] at hlatest
    cases hm : ts.max? with
    | none =>
      rw [hm] at hlatest
      obtain rfl : t = latest := Option.some.inj hlatest
      obtain rfl := List.max?_eq_none_iff.mp hm
      rw [hrun, htick]
      exact ⟨rfl, rfl⟩
    | some m =>
      rw [hm] at hlatest
      obtain rfl : max t m = latest := Option.some.inj hlatest
      obtain ⟨hrest, hm'⟩ := ih (h.advance t true) hts.2 hm
      rw [hrun, hrest, (tick_of_inTime hm').2, advance_advance h,
        tick_of_le (hin.trans (le_max_left t m))]
      exact ⟨rfl, rfl⟩

/-- a jump of the clock, however far, opens every bucket on the way; so times that are not refused
move the clock in turn as the latest of them does, and one in the window up to the current bucket
does not move it -/
theorem jumps_are_exact (hr : Reachable kind c g) (hs : c.bucketLength.secs.toNat < 2 ^ 63) :
    (∀ t counting, g.advance t counting = { g.openAll (g.startsUpTo t) counting with
      start := max g.start (bucketAt t g.length) }) ∧
    (∀ ts latest, g.inTime ts = true → ts.max? = some latest →
      g.run (ts.map .tick) = (g.tick latest).2 ∧ (g.tick latest).1 = true) ∧
    ∀ t, g.oldest ≤ t → t < g.start + g.length → g.tick t = (true, g) := by
  have hsound := hr.sound hs
  refine ⟨advance_eq_openAll hsound, fun ts latest hts hlatest => run_tick hsound hts hlatest,
    fun t hin hlt => ?_⟩
  rw [tick_of_le hin, advance_of_lt hsound hlt]

/-- measurements before the epoch, the buckets of which leave in a jump past the window -/
theorem jumps_are_exact_before_epoch :
    let c : Config := { Config.default with latencyBuckets := 2 }
    let d : Directory := ⟨fun _ => .active, fun _ => .active⟩
    let ops : List Op :=
      [.add d ⟨some (-700), some 7, some 2, [⟨0x3fe0000000000000⟩], some 1, none, [], false⟩,
       .add d ⟨some (-350), some 7, some 2, [⟨0x3fe0000000000000⟩], some 1, none, [], false⟩]
    ∃ g, new .metric c (-700) = .ok g ∧
      (g.run ops).advance 2000 true = { (g.run ops).openAll ((g.run ops).startsUpTo 2000) true with
        start := max (g.run ops).start (bucketAt 2000 (g.run ops).length) } ∧
      (g.run ops).run [.tick 100, .tick (-200), .tick 2000] = ((g.run ops).tick 2000).2 ∧
      (g.run ops).tick (-400) = (true, g.run ops) := by
  intro c d ops
  have hvalid : c.fault? .metric = none := by decide
  have hnew := new_eq hvalid (-700)
  obtain ⟨hjump, hticks, hstill⟩ := jumps_are_exact ⟨-700, _, ops, hnew, rfl⟩ (by decide)
  exact ⟨_, hnew, hjump 2000 true, (hticks [100, -200, 2000] 2000 (by decide +kernel) rfl).1,
    hstill (-400) (by decide +kernel) (by decide +kernel)⟩

end Gatherer

end EventBuckets
