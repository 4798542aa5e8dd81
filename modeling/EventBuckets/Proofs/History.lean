import EventBuckets.Proofs.Folds
import EventBuckets.Proofs.Runs

/-!
# What a gatherer holds of its history

While events are only added and the clock only moves, the bucket of each time of the window is the
fold of the records that were taken into it, however late and in whatever order they came.

* `Ring.Tells`           each bucket of the window tells its records, in some sense;
* `Ring.Holds`           each bucket of the window is the fold of its records;
* `Account`              what buckets of each kind are to tell; `Account.folds` is the strictest one;
* `Gatherer.recorded?`   the record that adding an event leaves behind, if there is one;
* `Gatherer.history`     the records of a run, in the order of their arrival;
* `Adds`                 what adding an event comes to, by its fate;
* `Reflects.run`         both windows hold the history of a run;
* `Gatherer.Describes`   what the queries say about a bucket with given records;
* `describes_history`    at any time of a run the queries describe the history.
-/

set_option linter.unusedSectionVars false

namespace EventBuckets

/-- the records of the bucket that holds `time` -/
def recordsAt (length time : Int) (records : List Recorded) : List Recorded :=
  records.filter fun x => bucketAt x.time length = bucketAt time length

/-! ## rings -/

namespace Ring
variable {α : Type}

/-- each bucket of the window from `lo` on tells its records, and no record is of a later bucket than
those of the window -/
structure Tells (r : Ring α) (lo : Int) (told : α → List Recorded → Prop)
    (records : List Recorded) : Prop where
  past : ∀ x ∈ records, bucketAt x.time r.length ≤ r.newest
  found : ∀ t, r.contains t = true → lo ≤ bucketAt t r.length →
    ∃ a, r.get? t = some a ∧ told a (recordsAt r.length t records)

/-- each bucket of the window from `lo` on is the fold of its records, and no record is of a later
bucket than those of the window -/
structure Holds [EmptyCollection α] (r : Ring α) (lo : Int) (take : α → Recorded → α)
    (records : List Recorded) : Prop where
  past : ∀ x ∈ records, bucketAt x.time r.length ≤ r.newest
  found : ∀ t, r.contains t = true → lo ≤ bucketAt t r.length →
    r.get? t = some ((recordsAt r.length t records).foldl take ∅)

/-- an empty bucket tells no record, and a bucket that takes a record tells it too -/
structure Tracks [EmptyCollection α] (told : α → List Recorded → Prop)
    (take : α → Recorded → α) : Prop where
  empty : told ∅ []
  take : ∀ {a rs x}, told a rs → 0 < x.count → told (take a x) (rs ++ [x])

variable [EmptyCollection α] {r : Ring α} {lo : Int} {told : α → List Recorded → Prop}
  {take : α → Recorded → α} {records : List Recorded}

theorem holds_iff_tells : r.Holds lo take records ↔
    r.Tells lo (fun a rs => a = rs.foldl take ∅) records := by
  constructor
  · intro h
    exact ⟨h.past, fun t ht hlo => ⟨_, h.found t ht hlo, rfl⟩⟩
  · intro h
    refine ⟨h.past, fun t ht hlo => ?_⟩
    obtain ⟨a, ha, rfl⟩ := h.found t ht hlo
    exact ha

theorem tracks_foldl (take : α → Recorded → α) : Tracks (fun a rs => a = rs.foldl take ∅) take where
  empty := rfl
  take := by
    rintro a rs x rfl -
    rw [List.foldl_append]
    rfl

theorem Tracks.tells_new (ht : Tracks told take) {length : Int} (hl : 0 < length) (latency : Nat)
    (t : Int) : (new latency length t : Ring α).Tells lo told [] :=
  ⟨fun _ hx => (List.not_mem_nil hx).elim,
    fun u hu _ => ⟨∅, get?_new hl latency t u hu, ht.empty⟩⟩

theorem Tracks.tells_reset (ht : Tracks told take) (hs : r.Sound) (t : Int) :
    (r.reset t).Tells lo told [] :=
  ⟨fun _ hx => (List.not_mem_nil hx).elim, fun u hu _ => ⟨∅, get?_reset hs t u hu, ht.empty⟩⟩

/-- rolling forward opens buckets that no record is of yet -/
theorem Tells.roll (ht : Tracks told take) (hs : r.Sound) (h : r.Tells lo told records) (t : Int) :
    (r.roll t).Tells lo told records := by
  refine ⟨fun x hx => ?_, fun u hu hlo => ?_⟩
  · rw [length_roll hs, newest_roll hs]
    exact (h.past x hx).trans (le_max_left _ _)
  · rw [length_roll hs] at hlo
    rw [get?_roll hs t u hu, length_roll hs]
    split
    next hold =>
      refine h.found u (contains_iff.mpr ⟨?_, hold⟩) hlo
      rw [contains_roll hs] at hu
      exact (sub_le_sub_right (le_max_left _ _) _).trans hu.1
    next hnew =>
      have hnone : recordsAt r.length u records = [] := by
        apply List.filter_eq_nil_iff.mpr
        intro x hx
        have := h.past x hx
        simp only [decide_eq_true_eq]
        omega
      rw [hnone]
      exact ⟨∅, rfl, ht.empty⟩

/-- a record goes into the bucket of its time -/
theorem Tells.record (ht : Tracks told take) (hs : r.Sound) (h : r.Tells lo told records)
    {x : Recorded} (hpos : 0 < x.count) (hx : bucketAt x.time r.length ≤ r.newest) :
    (r.modify x.time fun bucket => take bucket x).Tells lo told (records ++ [x]) := by
  refine ⟨fun y hy => ?_, fun u hu hlo => ?_⟩
  · rw [length_modify, newest_modify]
    rcases List.mem_append.mp hy with hy | hy
    · exact h.past y hy
    · rwa [List.mem_singleton.mp hy]
  · rw [contains_modify] at hu
    rw [length_modify] at hlo
    obtain ⟨a, hfound, htold⟩ := h.found u hu hlo
    rw [get?_modify hs, length_modify, hfound]
    unfold recordsAt
    rw [List.filter_append]
    by_cases e : bucketAt u r.length = bucketAt x.time r.length
    · have hown : [x].filter (fun y => bucketAt y.time r.length = bucketAt u r.length) = [x] :=
        List.filter_cons_of_pos (by simpa using e.symm)
      rw [if_pos e, hown]
      exact ⟨_, rfl, ht.take htold hpos⟩
    · have hother : [x].filter (fun y => bucketAt y.time r.length = bucketAt u r.length) = [] :=
        List.filter_cons_of_neg (by simpa using Ne.symm e)
      rw [if_neg e, hother, List.append_nil]
      exact ⟨a, rfl, htold⟩

theorem Tells.mono (h : r.Tells lo told records) {lo' : Int} (hle : lo ≤ lo') :
    r.Tells lo' told records :=
  ⟨h.past, fun u hu hlo => h.found u hu (hle.trans hlo)⟩

/-- a record of a bucket before `lo` may be left out -/
theorem Tells.leaveOut {x : Recorded} (h : r.Tells lo told (records ++ [x]))
    (hx : bucketAt x.time r.length < lo) : r.Tells lo told records := by
  refine ⟨fun y hy => h.past y (List.mem_append_left _ hy), fun u hu hlo => ?_⟩
  have hfound := h.found u hu hlo
  have hne : bucketAt x.time r.length ≠ bucketAt u r.length := by omega
  unfold recordsAt at hfound
  rw [List.filter_append, List.filter_cons_of_neg (by simpa using hne), List.filter_nil,
    List.append_nil] at hfound
  exact hfound

/-- changes of buckets before `lo` may be made -/
theorem Tells.mapTimed (hs : r.Sound) (h : r.Tells lo told records) {f : Int → α → α}
    (hf : ∀ start bucket, r.length ∣ start → lo ≤ start → f start bucket = bucket) :
    (r.mapTimed f).Tells lo told records := by
  refine ⟨h.past, fun u hu hlo => ?_⟩
  rw [contains_mapTimed] at hu
  obtain ⟨a, hfound, htold⟩ := h.found u hu hlo
  rw [get?_mapTimed hs, hfound, Option.map_some, hf _ _ (dvd_bucketAt u r.length) hlo]
  exact ⟨a, rfl, htold⟩

/-- buckets that drop some of their records no longer tell those -/
theorem Tells.retain (hs : r.Sound) (h : r.Tells lo told records) {f : α → α}
    {keeps : Recorded → Bool} (hf : ∀ a rs, told a rs → told (f a) (rs.filter keeps)) :
    (r.mapTimed fun _ => f).Tells lo told (records.filter keeps) := by
  refine ⟨fun x hx => h.past x (List.mem_filter.mp hx).1, fun u hu hlo => ?_⟩
  rw [contains_mapTimed] at hu
  obtain ⟨a, hfound, htold⟩ := h.found u hu hlo
  rw [get?_mapTimed hs, hfound]
  refine ⟨f a, rfl, ?_⟩
  show told (f a) ((records.filter keeps).filter _)
  rw [List.filter_comm]
  exact hf a _ htold

end Ring

/-! ## windows and series -/

/-- what buckets of each kind are to tell of the records they took -/
structure Account where
  counts : Aggregates → List Recorded → Prop
  texts : DistinctTexts → List Recorded → Prop
  metrics : Metrics → List Recorded → Prop

structure Account.Lawful (A : Account) : Prop where
  counts : Ring.Tracks A.counts Aggregates.take
  texts : Ring.Tracks A.texts DistinctTexts.take
  metrics : Ring.Tracks A.metrics Metrics.take

/-- each bucket is the fold of its records -/
def Account.folds : Account where
  counts a rs := a = rs.foldl Aggregates.take ∅
  texts d rs := d = rs.foldl DistinctTexts.take ∅
  metrics m rs := m = rs.foldl Metrics.take ∅

theorem Account.lawful_folds : folds.Lawful :=
  ⟨Ring.tracks_foldl _, Ring.tracks_foldl _, Ring.tracks_foldl _⟩

/-- emptying the buckets that ended by a time says nothing of those from there on -/
theorem Window.tells_release {α : Type} [PairData α] {w : Window α} {lo cutoff : Int}
    {told : α → List Recorded → Prop} {records : List Recorded} (hs : w.ring.Sound)
    (h : w.ring.Tells lo told records) (hcut : cutoff ≤ lo) :
    (w.release cutoff).1.ring.Tells lo told records := by
  rw [ring_release]
  refine h.mapTimed hs fun start bucket hstart hlo => if_neg ?_
  have := hs.pos
  unfold releasable bucketAfter
  rw [bucketAt_of_dvd hstart, Bool.and_eq_true, decide_eq_true_eq]
  omega

theorem Window.ring_sample {α : Type} [PairData α] (w : Window α) (t : Int) :
    (w.sample t).ring = w.ring := by
  unfold Window.sample
  split <;> rfl

namespace Series

/-- the buckets of the series from `lo` on tell their records -/
def Tells (s : Series) (A : Account) (lo : Int) (records : List Recorded) : Prop :=
  match s with
  | occurrences s => s.window.ring.Tells lo A.texts records
  | measured s => s.window.ring.Tells lo A.metrics records

/-- the series holds the records of the buckets from `lo` on -/
def Holds (s : Series) (lo : Int) (records : List Recorded) : Prop :=
  match s with
  | occurrences s => s.window.ring.Holds lo DistinctTexts.take records
  | measured s => s.window.ring.Holds lo Metrics.take records

variable {s : Series} {A : Account} {c : Config} {start lo : Int} {kind : SeriesKind}
  {records : List Recorded}

theorem holds_iff_tells : s.Holds lo records ↔ s.Tells .folds lo records := by
  cases s with
  | occurrences s => exact Ring.holds_iff_tells
  | measured s => exact Ring.holds_iff_tells

theorem tells_new (hA : A.Lawful) (hpos : 0 < c.bucketSeconds) (t : Int) :
    (Series.new kind c t).Tells A lo [] := by
  cases kind with
  | eventRate => exact hA.texts.tells_new hpos _ t
  | metric => exact hA.metrics.tells_new hpos _ t

theorem Fits.tells_reset (hA : A.Lawful) (hf : s.Fits c start kind) (t : Int) :
    (s.reset t).Tells A lo [] := by
  cases hf with
  | occurrences window => exact hA.texts.tells_reset window.ring.sound t
  | measured window samples weight => exact hA.metrics.tells_reset window.ring.sound t

theorem Tells.startBucket (hA : A.Lawful) (hf : s.Fits c start kind) (h : s.Tells A lo records)
    (t : Int) (x : SampleCounts) : ((s.startBucket t false).withSamples x).Tells A lo records := by
  cases hf with
  | occurrences window => exact Ring.Tells.roll hA.texts window.ring.sound h t
  | measured window samples weight => exact Ring.Tells.roll hA.metrics window.ring.sound h t

theorem Tells.sample (h : s.Tells A lo records) (t : Int) : (s.sample t).Tells A lo records := by
  cases s with
  | occurrences s =>
    show (s.window.sample t).ring.Tells lo A.texts records
    rw [Window.ring_sample]
    exact h
  | measured s =>
    show (s.window.sample t).ring.Tells lo A.metrics records
    rw [Window.ring_sample]
    exact h

theorem Tells.mono (h : s.Tells A lo records) {lo' : Int} (hle : lo ≤ lo') :
    s.Tells A lo' records := by
  cases s with
  | occurrences s => exact Ring.Tells.mono h hle
  | measured s => exact Ring.Tells.mono h hle

theorem Tells.leaveOut (hf : s.Fits c start kind) {x : Recorded}
    (h : s.Tells A lo (records ++ [x])) (hx : bucketAt x.time c.bucketSeconds < lo) :
    s.Tells A lo records := by
  cases hf with
  | occurrences window => exact Ring.Tells.leaveOut h (window.ring.length_eq.symm ▸ hx)
  | measured window samples weight =>
    exact Ring.Tells.leaveOut h (window.ring.length_eq.symm ▸ hx)

theorem Tells.release (hf : s.Fits c start kind) (h : s.Tells A lo records) {cutoff : Int}
    (hcut : cutoff ≤ lo) : (s.release cutoff).1.Tells A lo records := by
  cases hf with
  | occurrences window => exact Window.tells_release window.ring.sound h hcut
  | measured window samples weight => exact Window.tells_release window.ring.sound h hcut

/-- the bucket of a record takes it; an explicit null says nothing to a series -/
def taking (s : Series) (x : Recorded) : Series :=
  if x.event.isNull then s else s.add x.time x.pair x.event

theorem taking_occurrences {s : Occurrences} (h : s.window.Fits c start) (x : Recorded) :
    (occurrences s).taking x =
      occurrences ⟨s.window.modify x.time fun bucket => bucket.take x⟩ := by
  unfold taking DistinctTexts.take Series.add Occurrences.add
  by_cases hnull : x.event.isNull = true
  · simp only [hnull, if_true]
    rw [Window.modify_id h]
  · simp only [hnull, if_false, Bool.false_eq_true]
    cases x.event.text with
    | some text => rfl
    | none =>
      simp only
      rw [Window.modify_id h]

theorem taking_measured {s : Measured} (h : s.window.Fits c start) (x : Recorded) :
    (measured s).taking x =
      measured { s with window := s.window.modify x.time fun bucket => bucket.take x } := by
  unfold taking Metrics.take Series.add Measured.add
  by_cases hnull : x.event.isNull = true
  · simp only [hnull, if_true]
    rw [Window.modify_id h]
  · simp only [hnull, if_false, Bool.false_eq_true]

theorem Tells.taking (hA : A.Lawful) (hf : s.Fits c start kind) (h : s.Tells A lo records)
    {x : Recorded} (hpos : 0 < x.count) (hx : bucketAt x.time c.bucketSeconds ≤ start) :
    (s.taking x).Tells A lo (records ++ [x]) := by
  cases hf with
  | occurrences window =>
    rw [taking_occurrences window]
    apply Ring.Tells.record hA.texts window.ring.sound h hpos
    rwa [window.ring.length_eq, window.ring.newest_eq]
  | measured window samples weight =>
    rw [taking_measured window]
    apply Ring.Tells.record hA.metrics window.ring.sound h hpos
    rwa [window.ring.length_eq, window.ring.newest_eq]

/-- a pair has the texts of its records -/
theorem Holds.mem_texts (hf : s.Fits c start .eventRate) (h : s.Holds lo records) {t : Int}
    (ht : start - c.latencyBuckets * c.bucketSeconds ≤ bucketAt t c.bucketSeconds ∧
      bucketAt t c.bucketSeconds ≤ start) (hlo : lo ≤ bucketAt t c.bucketSeconds) (p : Pair)
    (text : String) :
    (∃ texts, s.texts? t p = some texts ∧ text ∈ texts) ↔
      ∃ r ∈ recordsAt c.bucketSeconds t records, r.isOf p = true ∧ r.event.text = some text := by
  cases hf with
  | @occurrences s window =>
    have hfound := Ring.Holds.found h t (window.ring.contains_iff.mpr ht)
    rw [window.ring.length_eq] at hfound
    have hfound := hfound hlo
    unfold texts?
    simp only [hfound]
    refine (DistinctTexts.holds_foldl _ ∅ p text).trans (or_iff_right ?_)
    simp [DistinctTexts.Holds, DistinctTexts.get?]

/-- a pair has the statistics of its records -/
theorem Holds.summary?_eq (hf : s.Fits c start .metric) (h : s.Holds lo records) {t : Int}
    (ht : start - c.latencyBuckets * c.bucketSeconds ≤ bucketAt t c.bucketSeconds ∧
      bucketAt t c.bucketSeconds ≤ start) (hlo : lo ≤ bucketAt t c.bucketSeconds) (p : Pair) :
    s.summary? t p = Metrics.summaryOf none
      ((recordsAt c.bucketSeconds t records).filter (Recorded.isOf p)) := by
  cases hf with
  | @measured s window samples weight =>
    have hfound := Ring.Holds.found h t (window.ring.contains_iff.mpr ht)
    rw [window.ring.length_eq] at hfound
    have hfound := hfound hlo
    unfold summary?
    simp only [hfound]
    refine (Metrics.get?_foldl _ ∅ p).trans ?_
    simp [Metrics.get?]

end Series

/-! ## events -/

/-- whether an operation adds an event or moves the clock -/
def Op.isGathering : Op → Bool
  | .add .. | .tick _ | .sample _ | .skip _ => true
  | _ => false

/-- the pair of an event that has a person and an attribute -/
def Event.pair? (e : Event) : Option Pair :=
  match e.person, e.attr with
  | some person, some attr => some ⟨person, attr⟩
  | _, _ => none

/-- the record of an event of a pair, unless it does not count -/
def Event.record? (e : Event) (time : Int) (p : Pair) : Option Recorded :=
  (e.count.filter fun n => 0 < n).map fun n => ⟨time, p, n, e⟩

/-- an event that does not count has no occurrences -/
theorem Event.getD_count_of_record? {e : Event} {t : Int} {p : Pair} (h : e.record? t p = none) :
    e.count.getD 0 = 0 := by
  unfold Event.record? at h
  cases hc : e.count with
  | none => rfl
  | some n => simpa [hc, Option.filter] using h

/-- the record of an event is of its time and pair, and counts what the event does -/
theorem Event.of_record? {e : Event} {t : Int} {p : Pair} {x : Recorded}
    (h : e.record? t p = some x) :
    x.time = t ∧ x.pair = p ∧ x.event = e ∧ e.count = some x.count ∧ 0 < x.count := by
  unfold Event.record? at h
  obtain ⟨n, hn, rfl⟩ := Option.map_eq_some_iff.mp h
  obtain ⟨hcount, hpos⟩ := Option.filter_eq_some_iff.mp hn
  exact ⟨rfl, rfl, rfl, hcount, of_decide_eq_true hpos⟩

/-- whether both ids of a pair are in use -/
def Directory.isActive (d : Directory) (p : Pair) : Bool :=
  d.person p.person = .active && d.attr p.attr = .active

/-- whether an event is of a pair that is in use, and its values are finite -/
def Event.isUsable (d : Directory) (e : Event) (p : Pair) : Bool :=
  d.isActive p && e.values.all Binary64.isFinite

theorem Event.ids_of_pair? {e : Event} {p : Pair} (h : e.pair? = some p) :
    e.person = some p.person ∧ e.attr = some p.attr := by
  unfold Event.pair? at h
  split at h
  next hperson hattr =>
    obtain rfl := Option.some.inj h
    exact ⟨hperson, hattr⟩
  · cases h

theorem Directory.isActive_iff {d : Directory} {p : Pair} :
    d.isActive p = true ↔ d.person p.person = .active ∧ d.attr p.attr = .active := by
  simp [isActive]

theorem Event.isUsable_iff {d : Directory} {e : Event} {p : Pair} :
    e.isUsable d p = true ↔ d.isActive p = true ∧ e.values.all Binary64.isFinite = true := by
  simp only [isUsable, Bool.and_eq_true]

namespace Gatherer

/-- the buckets of both windows from `lo` on tell their records -/
structure Tells (g : Gatherer) (A : Account) (lo : Int) (records : List Recorded) : Prop where
  counts : g.counts.ring.Tells lo A.counts records
  series : g.series.Tells A lo records

/-- both windows hold the records of the buckets from `lo` on -/
structure Reflects (g : Gatherer) (lo : Int) (records : List Recorded) : Prop where
  counts : g.counts.ring.Holds lo Aggregates.take records
  series : g.series.Holds lo records

/-- the record of an event that was taken in: it has a pair with ids in use, its values are finite,
and it counts at least once -/
def recorded? (g : Gatherer) (d : Directory) (e : Event) : Option Recorded :=
  match (g.add d e).1, e.time, e.pair? with
  | .ok true, some time, some pair => if e.isUsable d pair then e.record? time pair else none
  | _, _, _ => none

/-- what a fate says about an event -/
def Explains (g : Gatherer) (d : Directory) (e : Event) (t : Int) :
    Except IntakeError Fate → Prop
  | .error _ => g.oldest ≤ t
  | .ok .late => t < g.oldest
  | .ok .ignored => g.oldest ≤ t ∧ ∃ p, e.pair? = some p ∧ e.isUsable d p = false
  | .ok .clockOnly => g.oldest ≤ t ∧ e.pair? = none
  | .ok (.taken p) => g.oldest ≤ t ∧ e.pair? = some p ∧ e.isUsable d p = true

theorem fate_spec (g : Gatherer) (d : Directory) (e : Event) (t : Int) :
    g.Explains d e t (g.fate d e t) := by
  unfold fate
  split
  next hlate => exact hlate
  next hlate =>
    have ht : g.oldest ≤ t := Int.not_lt.mp hlate
    split
    next person attr hp ha =>
      have hpair : e.pair? = some ⟨person, attr⟩ := by
        unfold Event.pair?
        rw [hp, ha]
      split
      next => exact ht
      next h => exact ⟨ht, _, hpair, by simp [Event.isUsable, Directory.isActive, h]⟩
      next => exact ht
      next h => exact ⟨ht, _, hpair, by simp [Event.isUsable, Directory.isActive, h]⟩
      next hperson hattr =>
        split
        next hfinite =>
          split
          · exact ht
          · exact ⟨ht, hpair, by simp [Event.isUsable, Directory.isActive, hperson, hattr, hfinite]⟩
        next hfinite => exact ⟨ht, _, hpair, by simp [Event.isUsable, hfinite]⟩
    next hnone =>
      refine ⟨ht, ?_⟩
      unfold Event.pair?
      split
      next person attr hp ha => exact (hnone person attr hp ha).elim
      next => rfl

/-- with both ids active and only finite values, the limits decide -/
theorem fate_eq_of_usable {g : Gatherer} {d : Directory} {e : Event} {t : Int} {p : Pair}
    (ht : g.oldest ≤ t) (hp : e.pair? = some p) (hu : e.isUsable d p = true) :
    g.fate d e t = match g.config.limitFault? p with
      | some err => .error err
      | none => .ok (.taken p) := by
  obtain ⟨hperson, hattr⟩ := Event.ids_of_pair? hp
  obtain ⟨hactive, hfinite⟩ := Event.isUsable_iff.mp hu
  obtain ⟨hpactive, haactive⟩ := Directory.isActive_iff.mp hactive
  obtain ⟨person, attr⟩ := p
  cases hl : g.config.limitFault? ⟨person, attr⟩ <;>
    simp only [fate, Int.not_lt.mpr ht, hperson, hattr, hpactive, haactive, hfinite, hl, if_true,
      if_false]

/-- what adding an event comes to, by its fate -/
inductive Adds (g : Gatherer) (d : Directory) (e : Event) :
    Except IntakeError Bool × Gatherer → Prop
  | untimed (ht : e.time = none) : Adds g d e (.error .missingTime, g)
  | refused {t : Int} {err : IntakeError} (ht : e.time = some t)
      (hf : g.fate d e t = .error err) : Adds g d e (.error err, g)
  | late {t : Int} (ht : e.time = some t) (hf : g.fate d e t = .ok .late)
      (hlate : t < g.oldest) : Adds g d e (.ok false, g)
  | ignored {t : Int} {p : Pair} (ht : e.time = some t) (hf : g.fate d e t = .ok .ignored)
      (hp : e.pair? = some p) (hu : e.isUsable d p = false) : Adds g d e (.ok true, g)
  | noted {t : Int} (ht : e.time = some t) (hf : g.fate d e t = .ok .clockOnly)
      (hp : e.pair? = none) : Adds g d e (.ok true, g.observe t)
  | taken {t : Int} {p : Pair} (ht : e.time = some t) (hf : g.fate d e t = .ok (.taken p))
      (hin : g.oldest ≤ t) (hp : e.pair? = some p) (hu : e.isUsable d p = true) :
      Adds g d e (.ok true, ((g.widen p).observe t).record e t p)

theorem adds (g : Gatherer) (d : Directory) (e : Event) : Adds g d e (g.add d e) := by
  unfold Gatherer.add
  cases ht : e.time with
  | none => exact .untimed ht
  | some t =>
    have hspec := fate_spec g d e t
    simp only
    split
    next err hf => exact .refused ht hf
    next hf =>
      rw [hf] at hspec
      exact .late ht hf hspec
    next hf =>
      rw [hf] at hspec
      obtain ⟨-, p, hp, hu⟩ := hspec
      exact .ignored ht hf hp hu
    next hf =>
      rw [hf] at hspec
      exact .noted ht hf hspec.2
    next p hf =>
      rw [hf] at hspec
      obtain ⟨hin, hp, hu⟩ := hspec
      exact .taken ht hf hin hp hu

variable {g : Gatherer} {kind : SeriesKind} {c : Config} {lo : Int} {records : List Recorded}

/-- the bucket of a record takes it -/
def taking (g : Gatherer) (x : Recorded) : Gatherer :=
  { g with
    counts := g.counts.modify x.time fun bucket => bucket.take x
    series := g.series.taking x }

/-- recording an event is taking its record, if it has one -/
theorem record_alike (e : Event) {t : Int} (p : Pair) (ht : g.counts.ring.contains t = true) :
    Alike (g.record e t p) ((e.record? t p).elim g g.taking) := by
  unfold Gatherer.record
  simp only [ht, Bool.not_true, Bool.false_eq_true, or_false]
  cases hr : e.record? t p with
  | none =>
    rw [if_pos (Event.getD_count_of_record? hr)]
    exact Alike.refl g
  | some x =>
    obtain ⟨rfl, rfl, rfl, hcount, hpos⟩ := Event.of_record? hr
    rw [hcount, Option.getD_some, if_neg (Nat.ne_of_gt hpos)]
    show Alike _ (g.taking x)
    unfold Gatherer.taking Series.taking Aggregates.take
    by_cases hnull : x.event.isNull = true
    · simp only [hnull, if_true]
      exact ⟨g.pool, g.bounds, rfl⟩
    · simp only [hnull, if_false, Bool.false_eq_true]
      exact ⟨g.pool, g.bounds, rfl⟩

/-! ### what the buckets tell -/

section Tells
variable {A : Account} (hA : A.Lawful)
include hA

theorem tells_new (hs : c.bucketLength.secs.toNat < 2 ^ 63) {t : Int}
    (h : new kind c t = .ok g) : g.Tells A lo [] := by
  unfold new at h
  split at h
  · cases h
  next hv =>
    obtain rfl := Except.ok.inj h
    have hpos := Config.bucketSeconds_pos hv hs
    exact ⟨hA.counts.tells_new hpos _ t, Series.tells_new hA hpos t⟩

theorem Tells.advance (hs : g.Sound kind c) (h : g.Tells A lo records) (t : Int)
    (counting : Bool) : (g.advance t counting).Tells A lo records := by
  obtain ⟨x, -, e⟩ := advance_eq hs t counting
  rw [e]
  exact ⟨h.counts.roll hA.counts hs.counts.ring.sound _, h.series.startBucket hA hs.series _ x⟩

theorem Tells.tick (hs : g.Sound kind c) (h : g.Tells A lo records) (t : Int) :
    (g.tick t).2.Tells A lo records := by
  unfold Gatherer.tick
  split
  · exact h
  · exact h.advance hA hs t true

theorem Tells.sample (hs : g.Sound kind c) (h : g.Tells A lo records) (t : Int) :
    (g.sample t).Tells A lo records := by
  have h' := h.advance hA hs (g.lastCall t) true
  refine ⟨?_, h'.series.sample _⟩
  show ((g.advance (g.lastCall t) true).counts.sample _).ring.Tells lo _ records
  rw [Window.ring_sample]
  exact h'.counts

theorem Tells.observe (hs : g.Sound kind c) (h : g.Tells A lo records) (t : Int) :
    (g.observe t).Tells A lo records :=
  Tells.advance (g := { g with earliest := some (g.earliest.elim t fun e => min e t) }) hA
    ⟨hs.config_eq, hs.valid, hs.counts, hs.series⟩ ⟨h.counts, h.series⟩ t true

theorem Tells.taking (hs : g.Sound kind c) (h : g.Tells A lo records) {x : Recorded}
    (hpos : 0 < x.count) (hx : g.counts.ring.contains x.time = true) :
    (g.taking x).Tells A lo (records ++ [x]) := by
  have hpast : bucketAt x.time c.bucketSeconds ≤ g.start := (hs.counts.ring.contains_iff.mp hx).2
  refine ⟨h.counts.record hA.counts hs.counts.ring.sound hpos ?_,
    h.series.taking hA hs.series hpos hpast⟩
  rwa [hs.counts.ring.length_eq, hs.counts.ring.newest_eq]

/-- setting the clock leaves nothing of the history -/
theorem Sound.tells_restart (hs : g.Sound kind c) (t : Int) : (g.restart t).Tells A lo [] :=
  ⟨hA.counts.tells_reset hs.counts.ring.sound _, hs.series.tells_reset hA _⟩

/-- the bucket of a record that counts takes it -/
theorem Tells.record (hs : g.Sound kind c) (h : g.Tells A lo records) (e : Event) {t : Int}
    (p : Pair) (ht : g.counts.ring.contains t = true) :
    (g.record e t p).Tells A lo (records ++ (e.record? t p).toList) := by
  obtain ⟨pool, bounds, heq⟩ := (record_alike e p ht).symm
  have htold : ((e.record? t p).elim g g.taking).Tells A lo
      (records ++ (e.record? t p).toList) := by
    cases hr : e.record? t p with
    | none =>
      rw [Option.toList_none, List.append_nil]
      exact h
    | some x =>
      obtain ⟨htime, -, -, -, hpos⟩ := Event.of_record? hr
      exact h.taking hA hs hpos (htime ▸ ht)
  rw [heq]
  exact ⟨htold.counts, htold.series⟩

/-- adding an event adds its record to the history -/
theorem Tells.add (hs : g.Sound kind c) (h : g.Tells A lo records) (d : Directory) (e : Event) :
    (g.add d e).2.Tells A lo (records ++ (g.recorded? d e).toList) := by
  have hadds := adds g d e
  unfold recorded?
  generalize g.add d e = r at hadds
  cases hadds with
  | untimed => simpa using h
  | refused => simpa using h
  | late => simpa using h
  | ignored ht _ hp hu => simpa [ht, hp, hu] using h
  | @noted t _ _ hp => simpa [hp] using h.observe hA hs t
  | @taken t p ht _ hin hp hu =>
    have hwide : (g.widen p).Tells A lo records := ⟨h.counts, h.series⟩
    have htaken := (hwide.observe hA (hs.widen p) t).record hA ((hs.widen p).observe t) e p
      (contains_observe (hs.widen p) hin)
    simpa [ht, hp, hu] using htaken

end Tells

/-! ### what the buckets hold -/

theorem reflects_iff_tells : g.Reflects lo records ↔ g.Tells .folds lo records :=
  ⟨fun h => ⟨Ring.holds_iff_tells.mp h.counts, Series.holds_iff_tells.mp h.series⟩,
    fun h => ⟨Ring.holds_iff_tells.mpr h.counts, Series.holds_iff_tells.mpr h.series⟩⟩

theorem reflects_new (hs : c.bucketLength.secs.toNat < 2 ^ 63) {t : Int}
    (h : new kind c t = .ok g) : g.Reflects lo [] :=
  reflects_iff_tells.mpr (tells_new Account.lawful_folds hs h)

theorem Reflects.advance (hs : g.Sound kind c) (h : g.Reflects lo records) (t : Int)
    (counting : Bool) : (g.advance t counting).Reflects lo records :=
  reflects_iff_tells.mpr ((reflects_iff_tells.mp h).advance Account.lawful_folds hs t counting)

theorem Reflects.sample (hs : g.Sound kind c) (h : g.Reflects lo records) (t : Int) :
    (g.sample t).Reflects lo records :=
  reflects_iff_tells.mpr ((reflects_iff_tells.mp h).sample Account.lawful_folds hs t)

theorem Reflects.add (hs : g.Sound kind c) (h : g.Reflects lo records) (d : Directory) (e : Event) :
    (g.add d e).2.Reflects lo (records ++ (g.recorded? d e).toList) :=
  reflects_iff_tells.mpr ((reflects_iff_tells.mp h).add Account.lawful_folds hs d e)

theorem Reflects.mono (h : g.Reflects lo records) {lo' : Int} (hle : lo ≤ lo') :
    g.Reflects lo' records :=
  have h' := reflects_iff_tells.mp h
  reflects_iff_tells.mpr ⟨h'.counts.mono hle, h'.series.mono hle⟩

theorem Reflects.leaveOut (hs : g.Sound kind c) {x : Recorded}
    (h : g.Reflects lo (records ++ [x])) (hx : bucketAt x.time g.length < lo) :
    g.Reflects lo records := by
  have h' := reflects_iff_tells.mp h
  rw [hs.length_eq] at hx
  refine reflects_iff_tells.mpr ⟨h'.counts.leaveOut ?_, h'.series.leaveOut hs.series hx⟩
  rwa [hs.counts.ring.length_eq]

theorem Reflects.release (hs : g.Sound kind c) (h : g.Reflects lo records) {cutoff : Int}
    (hcut : cutoff ≤ lo) : (g.release cutoff).2.Reflects lo records :=
  have h' := reflects_iff_tells.mp h
  reflects_iff_tells.mpr ⟨Window.tells_release hs.counts.ring.sound h'.counts hcut,
    h'.series.release hs.series hcut⟩

/-! ## runs -/

/-- the records of a run, in the order of their arrival -/
def history (g : Gatherer) : List Op → List Recorded
  | [] => []
  | op :: ops =>
    (match op with
      | .add d e => (g.recorded? d e).toList
      | _ => []) ++ (g.perform op).2.history ops

theorem history_append (g : Gatherer) (ops ops' : List Op) :
    g.history (ops ++ ops') = g.history ops ++ (g.run ops).history ops' := by
  induction ops generalizing g with
  | nil => rfl
  | cons op ops ih =>
    show _ ++ (g.perform op).2.history (ops ++ ops') =
      (_ ++ (g.perform op).2.history ops) ++ ((g.perform op).2.run ops).history ops'
    rw [ih, List.append_assoc]

theorem Tells.run {A : Account} (hA : A.Lawful) (hs : g.Sound kind c) (h : g.Tells A lo records)
    {ops : List Op} (hops : ∀ op ∈ ops, op.isGathering = true) :
    (g.run ops).Tells A lo (records ++ g.history ops) := by
  induction ops generalizing g records with
  | nil => simpa [history] using h
  | cons op ops ih =>
    have hop := hops op List.mem_cons_self
    have hrest : ∀ op ∈ ops, op.isGathering = true := fun o ho => hops o (List.mem_cons_of_mem _ ho)
    unfold history
    rw [run_cons, ← List.append_assoc]
    refine ih (hs.perform op) ?_ hrest
    cases op with
    | add d e => exact h.add hA hs d e
    | tick t =>
      show (g.tick t).2.Tells A lo (records ++ [])
      rw [List.append_nil]
      exact h.tick hA hs t
    | sample t =>
      show (g.sample t).Tells A lo (records ++ [])
      rw [List.append_nil]
      exact h.sample hA hs t
    | skip t =>
      show (g.skip t).Tells A lo (records ++ [])
      rw [List.append_nil]
      exact h.advance hA hs (g.lastCall t) false
    | _ => cases hop

theorem Reflects.run (hs : g.Sound kind c) (h : g.Reflects lo records) {ops : List Op}
    (hops : ∀ op ∈ ops, op.isGathering = true) :
    (g.run ops).Reflects lo (records ++ g.history ops) :=
  reflects_iff_tells.mpr ((reflects_iff_tells.mp h).run Account.lawful_folds hs hops)

theorem pos_of_recorded? {d : Directory} {e : Event} {r : Recorded}
    (h : g.recorded? d e = some r) : 0 < r.count := by
  unfold recorded? at h
  split at h
  · split at h
    · exact (Event.of_record? h).2.2.2.2
    · cases h
  · cases h

theorem pos_of_mem_history {ops : List Op} {r : Recorded} (h : r ∈ g.history ops) :
    0 < r.count := by
  induction ops generalizing g with
  | nil => cases h
  | cons op ops ih =>
    unfold history at h
    rcases List.mem_append.mp h with h | h
    · cases op with
      | add d e => exact pos_of_recorded? (Option.mem_toList.mp h)
      | _ => cases h
    · exact ih h

/-! ## queries -/

/-- what the queries say about the bucket that holds `time`, which took the given records -/
structure Describes (g : Gatherer) (time : Int) (records : List Recorded) : Prop where
  /-- the bucket is the fold of the records -/
  bucket : g.bucket? time = some (records.foldl Aggregates.take ∅)
  /-- a pair is listed at most once -/
  pairs_nodup : ((g.pairCounts time).map Prod.fst).Nodup
  /-- the pairs listed are those that count, with the sums of their counts -/
  mem_pairCounts : ∀ p n, (p, n) ∈ g.pairCounts time ↔
    0 < n ∧ n = Recorded.total (Recorded.isOf p) records
  /-- a pair with explicit nulls and nothing else -/
  nullsOnly : ∀ p, g.nullsOnly time p = true ↔
    (∃ r ∈ records, r.isNullOf p = true) ∧ ∀ r ∈ records, r.isOf p = false
  /-- in each field the influences listed are those that count, with the sums of their counts -/
  mem_influences : ∀ field m n, (m, n) ∈ ((g.influences time)[field]?.getD []) ↔
    0 < n ∧ n = Recorded.total (Recorded.isFor field m) records
  /-- the texts of a pair are those of its records -/
  mem_texts : g.kind = .eventRate → ∀ p text,
    (∃ texts, g.series.texts? time p = some texts ∧ text ∈ texts) ↔
      ∃ r ∈ records, r.isOf p = true ∧ r.event.text = some text
  /-- the statistics of a pair take the values of its records, in the order of arrival -/
  summary : g.kind = .metric → ∀ p,
    g.series.summary? time p = Metrics.summaryOf none (records.filter (Recorded.isOf p))

theorem pairs_nodup (g : Gatherer) (t : Int) : ((g.pairCounts t).map Prod.fst).Nodup := by
  unfold pairCounts
  cases g.bucket? t with
  | none => exact List.nodup_nil
  | some b => exact nodup_keys_toList b.counts

/-- what holds of a fold of records is what the queries on the counts say -/
theorem nullsOnly_foldl {rs : List Recorded} (hpos : ∀ r ∈ rs, 0 < r.count) (p : Pair) :
    (rs.foldl Aggregates.take ∅).nullsOnly p = true ↔
      (∃ r ∈ rs, r.isNullOf p = true) ∧ ∀ r ∈ rs, r.isOf p = false := by
  have hsums := Aggregates.sumsTo_counts hpos (a := ∅) sumsTo_empty
  have hcounts : (rs.foldl Aggregates.take ∅).counts.contains p = true ↔
      ∃ r ∈ rs, r.isOf p = true := by
    rw [hsums.contains, Nat.zero_add, Recorded.total_pos hpos]
  have hnulls : (rs.foldl Aggregates.take ∅).nulls.contains p = true ↔
      ∃ r ∈ rs, r.isNullOf p = true := by
    rw [Aggregates.mem_nulls]
    exact or_iff_right (by simp)
  unfold Aggregates.nullsOnly
  rw [Bool.and_eq_true, hnulls, Bool.not_eq_true', ← Bool.not_eq_true, hcounts]
  simp

theorem Reflects.describes (hs : g.Sound kind c) (h : g.Reflects lo records)
    (hpos : ∀ r ∈ records, 0 < r.count) {t : Int} (ht : g.counts.ring.contains t = true)
    (hlo : lo ≤ bucketAt t g.length) : g.Describes t (recordsAt g.length t records) := by
  let rs := recordsAt g.length t records
  have hrs : ∀ r ∈ rs, 0 < r.count := fun r hr => hpos r (List.mem_filter.mp hr).1
  have hbucket : g.bucket? t = some (rs.foldl Aggregates.take ∅) := by
    have hfound := h.counts.found t ht
    rw [hs.counts.ring.length_eq, ← hs.length_eq] at hfound
    exact hfound hlo
  refine ⟨hbucket, g.pairs_nodup t, ?_, ?_, ?_, ?_, ?_⟩
  · intro p n
    have hsums := Aggregates.sumsTo_counts hrs (a := ∅) sumsTo_empty
    unfold pairCounts
    rw [hbucket]
    show (p, n) ∈ (rs.foldl Aggregates.take ∅).counts.toList ↔ _
    rw [hsums.mem_toList, Nat.zero_add]
  · intro p
    unfold Gatherer.nullsOnly
    rw [hbucket]
    exact nullsOnly_foldl hrs p
  · intro field m n
    have hsums := Aggregates.sumsTo_influencers hrs (a := ∅) (i := field) sumsTo_empty
    have hfield : (g.influences t)[field]?.getD [] =
        ((rs.foldl Aggregates.take ∅).influencers[field]?.getD ∅).toList := by
      unfold influences
      rw [hbucket]
      show ((rs.foldl Aggregates.take ∅).influencers.map fun f => f.toList)[field]?.getD [] = _
      rw [List.getElem?_map]
      cases (rs.foldl Aggregates.take ∅).influencers[field]? with
      | none => simp
      | some f => rfl
    rw [hfield, hsums.mem_toList, Nat.zero_add]
  · intro hkind p text
    obtain rfl : kind = .eventRate := hs.kind_eq.symm.trans hkind
    rw [hs.length_eq]
    exact Series.Holds.mem_texts hs.series h.series (hs.counts.ring.contains_iff.mp ht)
      (hs.length_eq ▸ hlo) p text
  · intro hkind p
    obtain rfl : kind = .metric := hs.kind_eq.symm.trans hkind
    rw [hs.length_eq]
    exact Series.Holds.summary?_eq hs.series h.series (hs.counts.ring.contains_iff.mp ht)
      (hs.length_eq ▸ hlo) p

/-- at any time of the window a bucket is described by the history of the run -/
theorem describes_history (hs : c.bucketLength.secs.toNat < 2 ^ 63) {start : Int}
    (hnew : new kind c start = .ok g) {ops : List Op} (hops : ∀ op ∈ ops, op.isGathering = true)
    {t : Int} (h₁ : (g.run ops).oldest ≤ t) (h₂ : t < (g.run ops).start + (g.run ops).length) :
    (g.run ops).Describes t (recordsAt c.bucketSeconds t (g.history ops)) := by
  have hsound := (sound_new hs hnew).run ops
  have hstart : g.Reflects (g.run ops).oldest [] := reflects_new hs hnew
  have hreflects := hstart.run (sound_new hs hnew) hops
  have hin : (g.run ops).counts.ring.contains t = true :=
    hsound.contains_iff.mpr ⟨hsound.le_bucketAt_of_oldest_le h₁,
      bucketAt_le_of_lt hsound.pos hsound.aligned h₂⟩
  rw [← hsound.length_eq]
  exact hreflects.describes hsound (fun r hr => pos_of_mem_history hr) hin
    (hsound.le_bucketAt_of_oldest_le h₁)

/-- a record that comes one bucket late is in the bucket of its own time -/
theorem describes_late_event :
    ∃ g, new .eventRate { Config.default with latencyBuckets := 1 } 300 = .ok g ∧
      (g.run [.add ⟨fun _ => .active, fun _ => .active⟩
          ⟨some 0, some 7, some 2, [], some 3, some "home", [some "host"], false⟩]).Describes 0
        [⟨0, ⟨7, 2⟩, 3,
          ⟨some 0, some 7, some 2, [], some 3, some "home", [some "host"], false⟩⟩] := by
  refine ⟨_, rfl, ?_⟩
  exact describes_history (c := { Config.default with latencyBuckets := 1 }) (t := 0) (by decide)
    rfl (by decide) (by decide) (by decide)

end Gatherer

end EventBuckets
