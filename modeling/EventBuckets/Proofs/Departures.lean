import EventBuckets.Proofs.Jumps
import EventBuckets.Proofs.Numeric
import EventBuckets.Proofs.Release

/-!
# Sample counts and the buckets that leave

The sample counts are updated from the oldest bucket, just before a new one is opened.  However the
clock moves, each bucket that leaves is taken once, in the order of time and with all that came late
into it; a step that skips takes none.

* `Metrics.measuredOf`      the number of measurements of a person in a bucket;
* `smoothedBy`              a sample count after a bucket, which says nothing without measurements;
* `Gatherer.leavers`        the buckets that an operation pushes out of the window;
* `Gatherer.departures`     those of a run, where they are not skipped;
* `Gatherer.Sheds`          the oldest buckets have left, and the sample counts took them in turn;
* `series_openNext`         opening buckets takes the same number of the oldest ones;
* `sampleCount?_departures` each sample count is what the departures of a run make of zero.
-/

set_option linter.unusedSectionVars false

namespace EventBuckets

/-! ## the people of a bucket -/

/-- the number of measurements of a person, over all attributes -/
def Metrics.measuredOf (m : Metrics) (person : Nat) : Nat :=
  ((m.byPair.toList.filter fun e => e.1.person = person).map fun e => e.2.count).sum

/-- the smoothed number `x` after a bucket with `n` measurements; no measurements say nothing -/
def smoothedBy (weight x : Binary64) (n : Nat) : Binary64 :=
  if n = 0 then x else if x.isZero then .ofNat n else x + weight * (.ofNat n - x)

theorem smoothedBy_zero (weight x : Binary64) : smoothedBy weight x 0 = x := if_pos rfl

theorem smoothedBy_of_ne {n : Nat} (hn : n ≠ 0) (weight x : Binary64) :
    smoothedBy weight x n = smoothed weight x n := if_neg hn

/-- the smoothed number of a person after buckets in turn -/
def smoothedOver (weight : Binary64) (person : Nat) (x : Binary64) (buckets : List (Int × Metrics)) :
    Binary64 :=
  buckets.foldl (fun x b => smoothedBy weight x (b.2.measuredOf person)) x

theorem smoothedOver_append (weight : Binary64) (person : Nat) (x : Binary64)
    (buckets buckets' : List (Int × Metrics)) :
    smoothedOver weight person x (buckets ++ buckets') =
      smoothedOver weight person (smoothedOver weight person x buckets) buckets' :=
  List.foldl_append

namespace SampleCounts
variable {s : SampleCounts} {weight : Binary64} {person : Nat}

theorem get_updatePerson (s : SampleCounts) (weight : Binary64) (other n person : Nat) :
    (s.updatePerson weight other n).get person =
      if other = person then smoothedBy weight (s.get person) n else s.get person := by
  unfold updatePerson
  by_cases hn : n = 0
  · rw [if_pos hn, hn, smoothedBy_zero, ite_self]
  · rw [if_neg hn, smoothedBy_of_ne hn, get_set]
    split
    next heq => rw [heq]
    next => rfl

/-- where each person is listed once, the number of each is updated once -/
theorem get_update {counts : List (Nat × Nat)} (hd : counts.Pairwise fun a b => a.1 ≠ b.1) :
    (s.update weight counts).get person =
      smoothedBy weight (s.get person) ((counts.filter fun e => e.1 = person).map Prod.snd).sum := by
  induction counts generalizing s with
  | nil => exact (smoothedBy_zero weight _).symm
  | cons e counts ih =>
    obtain ⟨hfirst, hrest⟩ := List.pairwise_cons.mp hd
    have hcons : s.update weight (e :: counts) =
        (s.updatePerson weight e.1 e.2).update weight counts := rfl
    rw [hcons, ih hrest, get_updatePerson, List.filter_cons]
    by_cases he : e.1 = person
    · -- the others are of other people, so they say nothing
      have hnone : ∀ n, (person, n) ∉ counts := fun n hn => hfirst _ hn he
      rw [if_pos he, if_pos (decide_eq_true he), List.map_cons, List.sum_cons,
        sum_filter_of_not_mem hnone, Nat.add_zero, smoothedBy_zero]
    · rw [if_neg he, if_neg (by simpa using he)]

theorem get_update_personCounts (m : Metrics) :
    (s.update weight m.personCounts).get person =
      smoothedBy weight (s.get person) (m.measuredOf person) := by
  unfold Metrics.personCounts
  rw [get_update, sum_filter_toList, getD_sumBy]
  · rfl
  · exact List.pairwise_map.mp (nodup_keys_toList _)

/-- takes buckets in turn -/
def takeAll (weight : Binary64) (s : SampleCounts) (buckets : List (Int × Metrics)) : SampleCounts :=
  buckets.foldl (fun s b => s.update weight b.2.personCounts) s

theorem get_takeAll (buckets : List (Int × Metrics)) :
    (s.takeAll weight buckets).get person =
      smoothedOver weight person (s.get person) buckets := by
  unfold takeAll smoothedOver
  induction buckets generalizing s with
  | nil => rfl
  | cons b buckets ih => rw [List.foldl_cons, List.foldl_cons, ih, get_update_personCounts]

end SampleCounts

/-! ## opening buckets -/

namespace Measured
variable {m : Measured} {c : Config} {start : Int}

/-- the series with `n` more buckets opened, each of which the oldest one was taken for -/
def opened (m : Measured) (c : Config) (start : Int) (n : Nat) : Measured :=
  { m with
    window := m.window.startBucket (start + n * c.bucketSeconds)
    samples := m.samples.takeAll m.weight (m.window.ring.entries.take n) }

/-- after `n` more buckets, the one that leaves next is the one that was `n` after the oldest one -/
theorem leaving_opened (h : m.window.Fits c start) (n : Nat) :
    (m.opened c start n).leaving =
      (m.window.ring.entries[n]?.map fun b => b.2.personCounts).getD [] := by
  have hr := h.ring
  have hn : 0 ≤ (n : Int) * c.bucketSeconds := Int.mul_nonneg (Int.natCast_nonneg _) hr.pos.le
  have hat : bucketAt (start + n * c.bucketSeconds) c.bucketSeconds = start + n * c.bucketSeconds :=
    bucketAt_of_dvd (Int.dvd_add hr.aligned (Int.dvd_mul_left _ _))
  have hroll := hr.roll (start + n * c.bucketSeconds)
  have hring : (m.opened c start n).window.ring = m.window.ring.roll (start + n * c.bucketSeconds) :=
    rfl
  have hold : (m.window.ring.roll (start + n * c.bucketSeconds)).oldest =
      m.window.ring.oldest + n * m.window.ring.length := by
    rw [hroll.oldest_eq, hat, hr.oldest_eq, hr.length_eq]
    omega
  have haligned : bucketAt (m.window.ring.oldest + n * m.window.ring.length) m.window.ring.length =
      m.window.ring.oldest + n * m.window.ring.length := by
    rw [hr.oldest_eq, hr.length_eq]
    exact bucketAt_of_dvd (Int.dvd_add (Int.dvd_sub hr.aligned (Int.dvd_mul_left _ _))
      (Int.dvd_mul_left _ _))
  have hget := Ring.get?_roll hr.sound (start + n * c.bucketSeconds) _ hroll.contains_oldest
  rw [hold, haligned] at hget
  unfold leaving
  rw [hring, hold, hget, hr.oldest_eq, hr.length_eq, hr.newest_eq]
  rcases Nat.lt_or_ge n m.window.ring.capacity with hlt | hge
  · have hle : (n : Int) * c.bucketSeconds ≤ c.latencyBuckets * c.bucketSeconds :=
      mul_le_mul_of_nonneg_right (by rw [hr.capacity_eq] at hlt; omega) hr.pos.le
    rw [if_pos (by omega), Ring.getElem?_entries hr.sound hlt, hr.oldest_eq, hr.length_eq]
    cases m.window.ring.get? (start - c.latencyBuckets * c.bucketSeconds + n * c.bucketSeconds) <;>
      rfl
  · -- the bucket was opened on the way, so it is empty
    have hgt : (c.latencyBuckets + 1 : Int) * c.bucketSeconds ≤ n * c.bucketSeconds :=
      mul_le_mul_of_nonneg_right (by rw [hr.capacity_eq] at hge; omega) hr.pos.le
    have hpos := hr.pos
    rw [add_mul, one_mul] at hgt
    rw [if_neg (by omega), List.getElem?_eq_none (by simpa using hge)]
    exact Metrics.personCounts_empty

theorem startBucket_opened (h : m.window.Fits c start) (n : Nat) :
    (m.opened c start n).startBucket (start + (n + 1 : Nat) * c.bucketSeconds) true =
      m.opened c start (n + 1) := by
  have hdvd (k : Nat) : bucketAt (start + k * c.bucketSeconds) c.bucketSeconds =
      start + k * c.bucketSeconds :=
    bucketAt_of_dvd (Int.dvd_add h.ring.aligned (Int.dvd_mul_left _ _))
  have hwindow : (m.window.startBucket (start + n * c.bucketSeconds)).startBucket
      (start + (n + 1 : Nat) * c.bucketSeconds) =
        m.window.startBucket (start + (n + 1 : Nat) * c.bucketSeconds) := by
    refine Window.startBucket_startBucket h ?_
    have hpos := h.ring.pos
    rw [hdvd, hdvd]
    push_cast
    rw [add_mul]
    omega
  have hsamples : (m.opened c start n).samples.update m.weight (m.opened c start n).leaving =
      m.samples.takeAll m.weight (m.window.ring.entries.take (n + 1)) := by
    rw [leaving_opened h, List.take_add_one]
    unfold opened SampleCounts.takeAll
    rw [List.foldl_append]
    cases m.window.ring.entries[n]? <;> rfl
  unfold startBucket updateSamples
  simp only [if_true]
  rw [show (m.opened c start n).weight = m.weight from rfl, hsamples]
  exact congrArg (fun w => ({ m.opened c start (n + 1) with window := w } : Measured)) hwindow

end Measured

/-! ## operations -/

/-- whether the sample counts change in an operation only because buckets leave: it neither drops
people nor begins anew -/
def Op.keepsSamples : Op → Bool
  | .add .. | .tick _ | .sample _ | .skip _ | .release _ | .resetBucket _ => true
  | _ => false

/-- where the first elements are those that are found, they are the first ones -/
theorem filter_eq_take {α : Type} {p : α → Bool} {as : List α} {n : Nat}
    (h : ∀ k a, as[k]? = some a → (p a = true ↔ k < n)) : as.filter p = as.take n := by
  induction as generalizing n with
  | nil => simp
  | cons a as ih =>
    cases n with
    | zero =>
      rw [List.take_zero, List.filter_eq_nil_iff]
      intro b hb hp
      obtain ⟨k, hk⟩ := List.getElem?_of_mem hb
      exact absurd ((h k b hk).mp hp) (Nat.not_lt_zero k)
    | succ n =>
      have hfirst : p a = true := (h 0 a rfl).mpr (Nat.succ_pos n)
      rw [List.filter_cons_of_pos hfirst, List.take_succ_cons,
        ih fun k b hb => (h (k + 1) b hb).trans Nat.succ_lt_succ_iff]

/-- the retained buckets of measurements, each with its start, the oldest first -/
def Series.measuredBuckets : Series → List (Int × Metrics)
  | occurrences _ => []
  | measured m => m.window.ring.entries

theorem Series.Fits.exists_measured {s : Series} {c : Config} {start : Int}
    (h : s.Fits c start .metric) :
    ∃ m : Measured, s = .measured m ∧ m.window.Fits c start ∧ m.weight = c.sampleCountWeight := by
  cases h with
  | measured window samples weight => exact ⟨_, rfl, window, weight⟩

namespace Gatherer
variable {g h k : Gatherer} {c : Config} {n : Nat}

/-- opening buckets takes as many of the oldest ones into the sample counts -/
theorem series_openNext (hs : g.Sound .metric c) {m : Measured} (hm : g.series = .measured m)
    (hw : m.window.Fits c g.start) (n : Nat) :
    (g.openNext n true).series = .measured (m.opened c g.start n) := by
  induction n with
  | zero =>
    have hsame : m.window.startBucket (g.start + (0 : Nat) * c.bucketSeconds) = m.window := by
      refine Window.startBucket_of_le hw ?_
      rw [Nat.cast_zero, zero_mul, add_zero, bucketAt_of_dvd hw.ring.aligned]
    show g.series = _
    unfold Measured.opened
    rw [hm, hsame]
    rfl
  | succ n ih =>
    rw [openNext_succ, hs.length_eq, ← Measured.startBucket_opened hw]
    show (g.openNext n true).series.startBucket _ true = _
    rw [ih]
    rfl

/-- the clock has moved by `n` buckets; as many of the oldest ones, if there are so many, have left,
and the sample counts took them in turn -/
structure Sheds (n : Nat) (g h : Gatherer) : Prop where
  start_eq : h.start = g.start + n * g.length
  samples : ∀ person, h.series.sampleCount? person = (g.series.sampleCount? person).map fun x =>
    smoothedOver g.config.sampleCountWeight person x (g.series.measuredBuckets.take n)

theorem sheds_advance (hs : g.Sound .metric c) (t : Int) :
    ∃ n, Sheds n g (g.advance t true) := by
  obtain ⟨a, ha⟩ := hs.aligned
  obtain ⟨b, hb⟩ := dvd_bucketAt t g.length
  obtain ⟨m, hm, hw, hweight⟩ := hs.series.exists_measured
  have hadvance := advance_eq_steps hs t true ha hb
  refine ⟨(b - a).toNat, ?_, fun person => ?_⟩
  · rw [hadvance]
  · rw [hadvance]
    show (g.openNext _ true).series.sampleCount? person = _
    rw [series_openNext hs hm hw, hm, hs.config_eq, ← hweight]
    exact congrArg some (SampleCounts.get_takeAll _)

/-- nothing leaves where neither the clock nor the sample counts change -/
theorem sheds_zero (hstart : h.start = g.start)
    (hsamples : h.series.sampleCount? = g.series.sampleCount?) : Sheds 0 g h where
  start_eq := by rw [hstart, Nat.cast_zero, zero_mul, add_zero]
  samples person := by
    rw [hsamples, List.take_zero]
    exact Option.map_id'.symm

theorem Sheds.of_same (hsheds : Sheds n g h) (hstart : k.start = h.start)
    (hsamples : k.series.sampleCount? = h.series.sampleCount?) : Sheds n g k :=
  ⟨hstart.trans hsheds.start_eq, fun person => (congrFun hsamples person).trans (hsheds.samples person)⟩

theorem sheds_observe (hs : g.Sound .metric c) (t : Int) : ∃ n, Sheds n g (g.observe t) := by
  obtain ⟨n, hstart, hsamples⟩ := sheds_advance
    (g := { g with earliest := some (g.earliest.elim t fun e => min e t) })
    ⟨hs.config_eq, hs.valid, hs.counts, hs.series⟩ t
  exact ⟨n, hstart, hsamples⟩

theorem sampleCount?_record (g : Gatherer) (e : Event) (t : Int) (p : Pair) :
    (g.record e t p).series.sampleCount? = g.series.sampleCount? := by
  have hadd : (g.series.add t p e).sampleCount? = g.series.sampleCount? := by
    cases g.series <;> rfl
  unfold Gatherer.record
  simp only
  split
  · rfl
  · split
    · rfl
    · exact hadd

theorem sheds_add (hs : g.Sound .metric c) (d : Directory) (e : Event) :
    ∃ n, Sheds n g (g.add d e).2 := by
  have hadds := adds g d e
  generalize g.add d e = r at hadds
  cases hadds with
  | untimed => exact ⟨0, sheds_zero rfl rfl⟩
  | refused => exact ⟨0, sheds_zero rfl rfl⟩
  | late => exact ⟨0, sheds_zero rfl rfl⟩
  | ignored => exact ⟨0, sheds_zero rfl rfl⟩
  | @noted t => exact sheds_observe hs t
  | @taken t p =>
    obtain ⟨n, hstart, hsamples⟩ := sheds_observe (hs.widen p) t
    have hsheds : Sheds n g ((g.widen p).observe t) := ⟨hstart, hsamples⟩
    exact ⟨n, hsheds.of_same (start_record _ e t p) (sampleCount?_record _ e t p)⟩

/-! ## what leaves -/

/-- the buckets that an operation pushes out of the window, as they were before it -/
def leavers (g : Gatherer) (op : Op) : List (Int × Metrics) :=
  g.series.measuredBuckets.filter fun b => !(g.perform op).2.series.retains b.1

/-- those of them that count as samples -/
def departing (g : Gatherer) : Op → List (Int × Metrics)
  | .skip _ => []
  | op => g.leavers op

/-- the buckets that leave in a run and count as samples, one operation after the other -/
def departures (g : Gatherer) : List Op → List (Int × Metrics)
  | [] => []
  | op :: ops => g.departing op ++ (g.perform op).2.departures ops

/-- where the buckets lie -/
theorem of_getElem?_measuredBuckets (hs : g.Sound .metric c) {k : Nat} {b : Int × Metrics}
    (hb : g.series.measuredBuckets[k]? = some b) :
    b.1 = g.oldest + k * g.length ∧ k ≤ g.latency := by
  obtain ⟨m, hm, hw, -⟩ := hs.series.exists_measured
  have hr := hw.ring
  rw [hm, show (Series.measured m).measuredBuckets = m.window.ring.entries from rfl] at hb
  have hk : k < m.window.ring.capacity := by
    rw [← Ring.length_entries]
    exact (List.getElem?_eq_some_iff.mp hb).1
  rw [Ring.getElem?_entries hr.sound hk, hr.length_eq, hr.oldest_eq] at hb
  obtain ⟨bucket, -, rfl⟩ := Option.map_eq_some_iff.mp hb
  rw [hr.capacity_eq] at hk
  unfold oldest
  rw [hs.length_eq, hs.latency_eq]
  exact ⟨rfl, Nat.le_of_lt_succ hk⟩

theorem measuredBuckets_ascending (hs : g.Sound .metric c) :
    g.series.measuredBuckets.Pairwise fun a b => a.1 < b.1 := by
  refine List.pairwise_iff_getElem.mpr fun i j hi hj hij => ?_
  have hij' : (i : Int) * g.length < j * g.length :=
    mul_lt_mul_of_pos_right (by exact_mod_cast hij) hs.pos
  have hfirst := (of_getElem?_measuredBuckets hs (List.getElem?_eq_getElem hi)).1
  have hsecond := (of_getElem?_measuredBuckets hs (List.getElem?_eq_getElem hj)).1
  omega

theorem oldest_le_of_mem (hs : g.Sound .metric c) {b : Int × Metrics}
    (hb : b ∈ g.series.measuredBuckets) : g.oldest ≤ b.1 := by
  obtain ⟨k, hk⟩ := List.getElem?_of_mem hb
  have hnn : 0 ≤ (k : Int) * g.length := Int.mul_nonneg (Int.natCast_nonneg _) hs.pos.le
  rw [(of_getElem?_measuredBuckets hs hk).1]
  omega

/-- the window moves by whole buckets, so the oldest ones leave -/
theorem leavers_eq_take (hs : g.Sound .metric c) {op : Op}
    (hstart : (g.perform op).2.start = g.start + n * g.length) :
    g.leavers op = g.series.measuredBuckets.take n := by
  refine filter_eq_take fun k b hb => ?_
  obtain ⟨hat, hk⟩ := of_getElem?_measuredBuckets hs hb
  have hpos := hs.pos
  have haligned : bucketAt b.1 g.length = b.1 := by
    rw [hat]
    exact bucketAt_of_dvd (Int.dvd_add (Int.dvd_sub hs.aligned (Int.dvd_mul_left _ _))
      (Int.dvd_mul_left _ _))
  have hkl : (k : Int) * g.length ≤ g.latency * g.length :=
    mul_le_mul_of_nonneg_right (by exact_mod_cast hk) hpos.le
  have hn : 0 ≤ (n : Int) * g.length := Int.mul_nonneg (Int.natCast_nonneg _) hpos.le
  rw [Bool.not_eq_true', ← Bool.not_eq_true, (hs.perform op).series.retains_iff, hstart,
    ← hs.length_eq, ← hs.latency_eq, haligned, hat]
  unfold oldest
  constructor
  · intro hout
    by_contra hnk
    have hnk : (n : Int) * g.length ≤ k * g.length :=
      mul_le_mul_of_nonneg_right (by exact_mod_cast Nat.not_lt.mp hnk) hpos.le
    exact hout ⟨by omega, by omega⟩
  · intro hlt hin
    have hlt : (k : Int) * g.length < n * g.length :=
      mul_lt_mul_of_pos_right (by exact_mod_cast hlt) hpos
    omega

theorem lt_oldest_of_mem_leavers (hs : g.Sound .metric c) {op : Op}
    (hstart : (g.perform op).2.start = g.start + n * g.length) {b : Int × Metrics}
    (hb : b ∈ g.leavers op) : b.1 < (g.perform op).2.oldest := by
  have hs' := hs.perform op
  rw [leavers_eq_take hs hstart] at hb
  obtain ⟨k, hk⟩ := List.getElem?_of_mem hb
  rw [List.getElem?_take] at hk
  split at hk
  next hlt =>
    have hkn : (k : Int) * g.length < n * g.length :=
      mul_lt_mul_of_pos_right (by exact_mod_cast hlt) hs.pos
    rw [(of_getElem?_measuredBuckets hs hk).1]
    unfold oldest
    rw [hs'.length_eq, hs'.latency_eq, hstart, ← hs.length_eq, ← hs.latency_eq]
    omega
  next => cases hk

/-! ## runs -/

/-- the clock has moved by whole buckets, and the sample counts took the given buckets in turn -/
structure Takes (buckets : List (Int × Metrics)) (g h : Gatherer) : Prop where
  start_eq : ∃ n : Nat, h.start = g.start + n * g.length
  samples : ∀ person, h.series.sampleCount? person = (g.series.sampleCount? person).map fun x =>
    smoothedOver g.config.sampleCountWeight person x buckets

theorem Sheds.takes (hs : g.Sound .metric c) (op : Op) (hsheds : Sheds n g (g.perform op).2) :
    Takes (g.leavers op) g (g.perform op).2 where
  start_eq := ⟨n, hsheds.start_eq⟩
  samples person := by rw [leavers_eq_take hs hsheds.start_eq, hsheds.samples]

/-- an operation moves the clock by whole buckets, and the sample counts take what departs -/
theorem takes_perform (hs : g.Sound .metric c) {op : Op} (hop : op.keepsSamples = true) :
    Takes (g.departing op) g (g.perform op).2 := by
  cases op with
  | add d e =>
    obtain ⟨n, hsheds⟩ := sheds_add hs d e
    exact hsheds.takes hs (.add d e)
  | tick t =>
    have hsheds : ∃ n, Sheds n g (g.tick t).2 := by
      unfold Gatherer.tick
      split
      · exact ⟨0, sheds_zero rfl rfl⟩
      · exact sheds_advance hs t
    obtain ⟨n, hsheds⟩ := hsheds
    exact hsheds.takes hs (.tick t)
  | sample t =>
    obtain ⟨n, hsheds⟩ := sheds_advance hs (g.lastCall t)
    have hsame : (g.sample t).series.sampleCount? =
        (g.advance (g.lastCall t) true).series.sampleCount? := by
      show ((g.advance (g.lastCall t) true).series.sample _).sampleCount? = _
      cases (g.advance (g.lastCall t) true).series <;> rfl
    exact (hsheds.of_same (k := g.sample t) rfl hsame).takes hs (.sample t)
  | skip t =>
    obtain ⟨a, ha⟩ := hs.aligned
    obtain ⟨b, hb⟩ := dvd_bucketAt (g.lastCall t) g.length
    refine ⟨⟨(b - a).toNat, ?_⟩, fun person => ?_⟩
    · show (g.advance (g.lastCall t) false).start = _
      rw [advance_eq_steps hs _ false ha hb]
    · show (g.advance (g.lastCall t) false).series.sampleCount? person = _
      rw [sampleCount?_advance_false]
      exact Option.map_id'.symm
  | release cutoff =>
    have hsheds : Sheds 0 g (g.release cutoff).2 :=
      sheds_zero rfl (g.series.sampleCount?_release cutoff)
    exact hsheds.takes hs (.release cutoff)
  | resetBucket t =>
    have hsheds : Sheds 0 g (g.resetBucket t).2 := by
      unfold Gatherer.resetBucket
      split
      · refine sheds_zero rfl ?_
        show (g.series.emptyBucket t).sampleCount? = _
        cases g.series <;> rfl
      · exact sheds_zero rfl rfl
    exact hsheds.takes hs (.resetBucket t)
  | _ => cases hop

theorem samples_run (hs : g.Sound .metric c) {ops : List Op}
    (hops : ∀ op ∈ ops, op.keepsSamples = true) (person : Nat) :
    (g.run ops).series.sampleCount? person = (g.series.sampleCount? person).map fun x =>
      smoothedOver c.sampleCountWeight person x (g.departures ops) := by
  induction ops generalizing g with
  | nil => exact Option.map_id'.symm
  | cons op ops ih =>
    have htakes := takes_perform hs (hops op List.mem_cons_self)
    rw [run_cons, ih (hs.perform op) fun o ho => hops o (List.mem_cons_of_mem _ ho),
      htakes.samples, hs.config_eq, Option.map_map]
    refine congrArg (Option.map · _) (funext fun x => ?_)
    exact (smoothedOver_append _ _ _ _ _).symm

theorem mem_of_mem_departing {op : Op} {b : Int × Metrics} (hb : b ∈ g.departing op) :
    b ∈ g.leavers op := by
  cases op with
  | skip t => cases hb
  | _ => exact hb

theorem oldest_le_of_mem_departures (hs : g.Sound .metric c) {ops : List Op}
    (hops : ∀ op ∈ ops, op.keepsSamples = true) {b : Int × Metrics} (hb : b ∈ g.departures ops) :
    g.oldest ≤ b.1 := by
  induction ops generalizing g with
  | nil => cases hb
  | cons op ops ih =>
    rcases List.mem_append.mp hb with hb | hb
    · exact oldest_le_of_mem hs (List.mem_filter.mp (mem_of_mem_departing hb)).1
    · have hs' := hs.perform op
      obtain ⟨n, hstart⟩ := (takes_perform hs (hops op List.mem_cons_self)).start_eq
      have hnn : 0 ≤ (n : Int) * g.length := Int.mul_nonneg (Int.natCast_nonneg _) hs.pos.le
      refine le_trans ?_ (ih hs' (fun o ho => hops o (List.mem_cons_of_mem _ ho)) hb)
      unfold oldest
      rw [hs'.length_eq, hs'.latency_eq, hstart, ← hs.length_eq, ← hs.latency_eq]
      omega

/-- no bucket departs twice, and none after a later one -/
theorem departures_ascending (hs : g.Sound .metric c) {ops : List Op}
    (hops : ∀ op ∈ ops, op.keepsSamples = true) :
    (g.departures ops).Pairwise fun a b => a.1 < b.1 := by
  induction ops generalizing g with
  | nil => exact .nil
  | cons op ops ih =>
    have hrest : ∀ op ∈ ops, op.keepsSamples = true := fun o ho => hops o (List.mem_cons_of_mem _ ho)
    obtain ⟨n, hstart⟩ := (takes_perform hs (hops op List.mem_cons_self)).start_eq
    refine List.pairwise_append.mpr ⟨?_, ih (hs.perform op) hrest, fun a ha b hb => ?_⟩
    · cases op with
      | skip t => exact .nil
      | _ => exact (measuredBuckets_ascending hs).filter _
    · exact (lt_oldest_of_mem_leavers hs hstart (mem_of_mem_departing ha)).trans_le
        (oldest_le_of_mem_departures (hs.perform op) hrest hb)

/-- from a new gatherer on, whatever is added, sampled, skipped, released and reset, the buckets that
leave and are not skipped do so once and in the order of time, and the sample count of a person is
what they make of zero in turn -/
theorem sampleCount?_departures (hs : c.bucketLength.secs.toNat < 2 ^ 63) {time : Int}
    (hnew : new .metric c time = .ok g) {ops : List Op}
    (hops : ∀ op ∈ ops, op.keepsSamples = true) (person : Nat) :
    (g.departures ops).Pairwise (fun a b => a.1 < b.1) ∧
      (g.run ops).series.sampleCount? person =
        some (smoothedOver c.sampleCountWeight person 0 (g.departures ops)) := by
  have hsound := sound_new hs hnew
  refine ⟨departures_ascending hsound hops, ?_⟩
  have hzero : g.series.sampleCount? person = some 0 := by
    rw [new_eq hsound.valid] at hnew
    obtain rfl := Except.ok.inj hnew
    exact congrArg some Std.ExtTreeMap.getD_empty
  rw [samples_run hsound hops, hzero, Option.map_some]

/-- measurements of two attributes, one of them late; a bucket with one of them is skipped, and the
last two leave in a jump -/
theorem sampleCount?_departures_jump :
    let c : Config := { Config.default with latencyBuckets := 1, features := [.mean] }
    let d : Directory := ⟨fun _ => .active, fun _ => .active⟩
    let e (t : Int) (attr : Nat) : Event :=
      ⟨some t, some 7, some attr, [1], some 1, none, [some "host"], false⟩
    let ops : List Op := [.add d (e 10 2), .add d (e 310 2), .add d (e 20 3), .add d (e 620 3),
      .skip 600, .add d (e 1000 2), .tick 10000]
    let w := c.sampleCountWeight
    ∃ g, new .metric c 0 = .ok g ∧ (g.departures ops).Pairwise (fun a b => a.1 < b.1) ∧
      (g.departures ops).map (fun b : Int × Metrics => (b.1, b.2.measuredOf 7)) =
        [(-300, 0), (0, 2), (600, 1), (900, 1)] ∧
      (g.run ops).series.sampleCount? 7 =
        some (smoothedBy w (smoothedBy w (.ofNat 2) 1) 1) := by
  intro c d e ops w
  have hvalid : c.fault? .metric = none := by decide
  have hnew := new_eq hvalid 0
  have hops : ∀ op ∈ ops, op.keepsSamples = true := by decide
  obtain ⟨hascending, hsamples⟩ := sampleCount?_departures (by decide) hnew hops 7
  refine ⟨_, hnew, hascending, by decide +kernel, hsamples.trans ?_⟩
  decide +kernel

end Gatherer

end EventBuckets
