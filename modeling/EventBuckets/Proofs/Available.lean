import EventBuckets.Proofs.InStep

/-!
# Data is available where it is

A bucket with data is never passed over: the earliest time of an event that was taken in is kept
when buckets are emptied, dropped or moved away from, so it comes before the end of every bucket
that has data.

* `PairData.EmptyLaws`   nothing comes of an empty bucket but by taking records;
* `Ring.hasData`         whether the bucket of a time is retained and not empty, and what each
                         operation makes of it; `Gatherer.hasData` asks both windows;
* `Announced`            data is available of each bucket that has data; `Announced.run`;
* `Searches`             the search for a bucket to sample, step by step;
* `Gatherer.samplable`   the bucket starts of an interval that are retained and have data available;
* `firstSample_spec`     the first one of them is found;
* `no_data_passed_over`  the search ends, with that bucket, and does not pass over one with data.
-/

set_option linter.unusedSectionVars false

namespace EventBuckets

/-! ## buckets without data -/

/-- nothing is there in an empty bucket, also when pairs were dropped from it -/
structure PairData.EmptyLaws (α : Type) [PairData α] : Prop where
  isEmpty_empty : PairData.isEmpty (∅ : α) = true
  isEmpty_retain : ∀ (keeps : Pair → Bool) (a : α), PairData.isEmpty a = true →
    PairData.isEmpty (PairData.retain keeps a) = true

/-- a map without keys has none after some are dropped -/
theorem isEmpty_filter {κ β : Type} [Ord κ] [Std.TransOrd κ] [Std.LawfulEqOrd κ]
    {m : Std.ExtTreeMap κ β compare} (h : m.isEmpty = true) (keeps : κ → β → Bool) :
    (m.filter keeps).isEmpty = true := by
  rw [Std.ExtTreeMap.isEmpty_iff] at h
  subst h
  rfl

theorem Aggregates.emptyLaws : PairData.EmptyLaws Aggregates where
  isEmpty_empty := rfl
  isEmpty_retain keeps a h := by
    obtain ⟨hcounts, hnulls, hfields⟩ := Aggregates.isEmpty_iff.mp h
    refine Aggregates.isEmpty_iff.mpr ⟨?_, ?_, fun f hf => ?_⟩
    · show a.counts.filter _ = ∅
      rw [hcounts]
      rfl
    · show a.nulls.filter _ = ∅
      rw [hnulls]
      rfl
    · obtain ⟨f₀, hf₀, rfl⟩ := List.mem_map.mp hf
      rw [hfields f₀ hf₀]
      rfl

theorem DistinctTexts.emptyLaws : PairData.EmptyLaws DistinctTexts where
  isEmpty_empty := rfl
  isEmpty_retain _ _ h := isEmpty_filter h _

theorem Metrics.emptyLaws : PairData.EmptyLaws Metrics where
  isEmpty_empty := rfl
  isEmpty_retain _ _ h := isEmpty_filter h _

/-! ## rings -/

namespace Ring
variable {α : Type} [PairData α] {r r' : Ring α} {t : Int}

/-- whether the bucket that holds `time` is retained and has data -/
def hasData (r : Ring α) (time : Int) : Bool :=
  (r.get? time).any fun bucket => !PairData.isEmpty bucket

theorem hasData_iff :
    r.hasData t = true ↔ ∃ a, r.get? t = some a ∧ PairData.isEmpty a = false := by
  unfold hasData
  rw [Option.any_eq_true]
  simp

theorem hasData_of_get? {f : α → α}
    (hf : ∀ a, PairData.isEmpty a = true → PairData.isEmpty (f a) = true)
    (hget : r'.get? t = (r.get? t).map f) (h : r'.hasData t = true) : r.hasData t = true := by
  obtain ⟨b, hb, hdata⟩ := hasData_iff.mp h
  rw [hget, Option.map_eq_some_iff] at hb
  obtain ⟨a, ha, rfl⟩ := hb
  refine hasData_iff.mpr ⟨a, ha, Bool.eq_false_iff.mpr fun hempty => ?_⟩
  rw [hf a hempty] at hdata
  cases hdata

/-- an edit brings data to the bucket of its time only -/
theorem hasData_modify (hs : r.Sound) {u : Int} {f : α → α}
    (h : (r.modify u f).hasData t = true) :
    r.hasData t = true ∨ bucketAt t r.length = bucketAt u r.length := by
  by_cases e : bucketAt t r.length = bucketAt u r.length
  · exact .inr e
  · refine .inl (hasData_of_get? (f := id) (fun _ h => h) ?_ h)
    rw [get?_modify hs, if_neg e, Option.map_id]
    rfl

theorem hasData_mapTimed (hs : r.Sound) {f : Int → α → α}
    (hf : ∀ s a, PairData.isEmpty a = true → PairData.isEmpty (f s a) = true)
    (h : (r.mapTimed f).hasData t = true) : r.hasData t = true :=
  hasData_of_get? (hf _) (get?_mapTimed hs f t) h

section EmptyLaws
variable (hα : PairData.EmptyLaws α)
include hα

theorem hasData_of_get?_empty (hget : ∀ a, r.get? t = some a → a = ∅) : r.hasData t = false := by
  rw [Bool.eq_false_iff, Ne, hasData_iff]
  rintro ⟨a, ha, hdata⟩
  rw [hget a ha, hα.isEmpty_empty] at hdata
  cases hdata

theorem hasData_new {length : Int} (hl : 0 < length) (latency : Nat) (u : Int) :
    (new latency length u : Ring α).hasData t = false := by
  refine hasData_of_get?_empty hα fun a ha => ?_
  have hin : (new latency length u : Ring α).contains t = true := by
    rw [← isSome_get? (sound_new hl latency u), ha]
    rfl
  rw [get?_new hl latency u t hin] at ha
  exact (Option.some.inj ha).symm

theorem hasData_clear : r.clear.hasData t = false := by
  refine hasData_of_get?_empty hα fun a ha => ?_
  rw [get?_clear, Option.map_eq_some_iff] at ha
  obtain ⟨-, -, rfl⟩ := ha
  rfl

theorem hasData_reset (hs : r.Sound) (u : Int) : (r.reset u).hasData t = false := by
  refine hasData_of_get?_empty hα fun a ha => ?_
  have hin : (r.reset u).contains t = true := by
    rw [← isSome_get? (hs.reset u), ha]
    rfl
  rw [get?_reset hs u t hin] at ha
  exact (Option.some.inj ha).symm

/-- a bucket that is opened is empty -/
theorem hasData_roll (hs : r.Sound) {u : Int} (h : (r.roll u).hasData t = true) :
    r.hasData t = true := by
  obtain ⟨a, ha, hdata⟩ := hasData_iff.mp h
  have hin : (r.roll u).contains t = true := by
    rw [← isSome_get? (hs.roll u), ha]
    rfl
  rw [get?_roll hs u t hin] at ha
  split at ha
  · exact hasData_iff.mpr ⟨a, ha, hdata⟩
  · obtain rfl := Option.some.inj ha
    rw [hα.isEmpty_empty] at hdata
    cases hdata

end EmptyLaws

end Ring

namespace Window
variable {α : Type} [PairData α] {w : Window α} {t : Int}

theorem hasData_retain (hα : PairData.EmptyLaws α) (hs : w.ring.Sound) {keeps : Pair → Bool}
    (h : (w.retain keeps).ring.hasData t = true) : w.ring.hasData t = true :=
  Ring.hasData_mapTimed hs (fun _ => hα.isEmpty_retain keeps) h

theorem hasData_emptyBucket (hα : PairData.EmptyLaws α) (hs : w.ring.Sound) {u : Int}
    (h : (w.emptyBucket u).ring.hasData t = true) : w.ring.hasData t = true := by
  have hget := Ring.get?_modify hs u t fun _ => (∅ : α)
  split at hget
  · exact Ring.hasData_of_get? (fun _ _ => hα.isEmpty_empty) hget h
  · exact Ring.hasData_of_get? (f := id) (fun _ h => h) (by rw [Option.map_id]; exact hget) h

theorem hasData_release (hα : PairData.EmptyLaws α) (hs : w.ring.Sound) {cutoff : Int}
    (h : (w.release cutoff).1.ring.hasData t = true) : w.ring.hasData t = true := by
  rw [ring_release] at h
  refine Ring.hasData_mapTimed hs (fun start a ha => ?_) h
  split
  · exact hα.isEmpty_empty
  · exact ha

end Window

/-! ## series -/

namespace Series
variable {s : Series} {c : Config} {start t : Int} {kind : SeriesKind}

/-- whether the bucket of the series that holds `time` is retained and has data -/
def hasData (s : Series) (time : Int) : Bool :=
  match s with
  | occurrences s => s.window.ring.hasData time
  | measured s => s.window.ring.hasData time

theorem retains_of_hasData (h : s.hasData t = true) : s.retains t = true := by
  cases s with
  | occurrences s =>
    obtain ⟨a, ha, -⟩ := Ring.hasData_iff.mp h
    exact Option.isSome_iff_exists.mpr ⟨a, ha⟩
  | measured s =>
    obtain ⟨a, ha, -⟩ := Ring.hasData_iff.mp h
    exact Option.isSome_iff_exists.mpr ⟨a, ha⟩

theorem hasData_new (hpos : 0 < c.bucketSeconds) (u : Int) :
    (Series.new kind c u).hasData t = false := by
  cases kind with
  | eventRate => exact Ring.hasData_new DistinctTexts.emptyLaws hpos _ u
  | metric => exact Ring.hasData_new Metrics.emptyLaws hpos _ u

theorem Fits.hasData_startBucket (hf : s.Fits c start kind) {u : Int} {x : SampleCounts}
    (h : ((s.startBucket u false).withSamples x).hasData t = true) : s.hasData t = true := by
  cases hf with
  | occurrences window => exact Ring.hasData_roll DistinctTexts.emptyLaws window.ring.sound h
  | measured window samples weight => exact Ring.hasData_roll Metrics.emptyLaws window.ring.sound h

theorem hasData_sample (s : Series) (u t : Int) : (s.sample u).hasData t = s.hasData t := by
  cases s with
  | occurrences s => exact congrArg (Ring.hasData · t) (s.window.ring_sample u)
  | measured s => exact congrArg (Ring.hasData · t) (s.window.ring_sample u)

theorem Fits.hasData_add (hf : s.Fits c start kind) {u : Int} {p : Pair} {e : Event}
    (h : (s.add u p e).hasData t = true) :
    s.hasData t = true ∨ bucketAt t c.bucketSeconds = bucketAt u c.bucketSeconds := by
  cases hf with
  | @occurrences s window =>
    unfold Series.add Occurrences.add at h
    cases htext : e.text with
    | none =>
      rw [htext] at h
      exact .inl h
    | some text =>
      rw [htext] at h
      rw [← window.ring.length_eq]
      exact Ring.hasData_modify window.ring.sound h
  | measured window samples weight =>
    rw [← window.ring.length_eq]
    exact Ring.hasData_modify window.ring.sound h

theorem Fits.hasData_retainPeople (hf : s.Fits c start kind) {keeps : Nat → Bool}
    (h : (s.retainPeople keeps).hasData t = true) : s.hasData t = true := by
  cases hf with
  | occurrences window => exact Window.hasData_retain DistinctTexts.emptyLaws window.ring.sound h
  | measured window samples weight =>
    exact Window.hasData_retain Metrics.emptyLaws window.ring.sound h

theorem Fits.hasData_retainAttributes (hf : s.Fits c start kind) {keeps : Nat → Bool}
    (h : (s.retainAttributes keeps).hasData t = true) : s.hasData t = true := by
  cases hf with
  | occurrences window => exact Window.hasData_retain DistinctTexts.emptyLaws window.ring.sound h
  | measured window samples weight =>
    exact Window.hasData_retain Metrics.emptyLaws window.ring.sound h

theorem Fits.hasData_emptyBucket (hf : s.Fits c start kind) {u : Int}
    (h : (s.emptyBucket u).hasData t = true) : s.hasData t = true := by
  cases hf with
  | occurrences window =>
    exact Window.hasData_emptyBucket DistinctTexts.emptyLaws window.ring.sound h
  | measured window samples weight =>
    exact Window.hasData_emptyBucket Metrics.emptyLaws window.ring.sound h

theorem Fits.hasData_release (hf : s.Fits c start kind) {cutoff : Int}
    (h : (s.release cutoff).1.hasData t = true) : s.hasData t = true := by
  cases hf with
  | occurrences window => exact Window.hasData_release DistinctTexts.emptyLaws window.ring.sound h
  | measured window samples weight =>
    exact Window.hasData_release Metrics.emptyLaws window.ring.sound h

theorem hasData_clear (s : Series) (t : Int) : s.clear.hasData t = false := by
  cases s with
  | occurrences s => exact Ring.hasData_clear DistinctTexts.emptyLaws
  | measured s => exact Ring.hasData_clear Metrics.emptyLaws

theorem Fits.hasData_reset (hf : s.Fits c start kind) (u t : Int) :
    (s.reset u).hasData t = false := by
  cases hf with
  | occurrences window => exact Ring.hasData_reset DistinctTexts.emptyLaws window.ring.sound u
  | measured window samples weight =>
    exact Ring.hasData_reset Metrics.emptyLaws window.ring.sound u

end Series

/-! ## gatherers -/

namespace Gatherer
variable {g g' : Gatherer} {kind : SeriesKind} {c : Config}

/-- whether a bucket of either window that holds `time` is retained and has data -/
def hasData (g : Gatherer) (time : Int) : Bool :=
  g.counts.ring.hasData time || g.series.hasData time

theorem hasData_iff {t : Int} : g.hasData t = true ↔
    g.counts.ring.hasData t = true ∨ g.series.hasData t = true := by
  unfold hasData
  rw [Bool.or_eq_true]

theorem available_iff {t : Int} :
    g.available t = true ↔ ∃ e ∈ g.earliest, bucketAt e g.length ≤ t := by
  unfold available
  cases g.earliest <;> simp

/-- data is available of each bucket that has data -/
def Announced (g : Gatherer) : Prop :=
  ∀ t, g.hasData t = true → g.available (bucketAt t g.length) = true

theorem Announced.of_none (hcounts : ∀ t, g.counts.ring.hasData t = false)
    (hseries : ∀ t, g.series.hasData t = false) : g.Announced := by
  intro t ht
  rw [hasData_iff, hcounts, hseries] at ht
  rcases ht with h | h <;> cases h

theorem announced_new (hs : c.bucketLength.secs.toNat < 2 ^ 63) {t : Int}
    (hnew : new kind c t = .ok g) : g.Announced := by
  have hv := valid_of_new hnew
  have hpos := Config.bucketSeconds_pos hv hs
  rw [new_eq hv] at hnew
  obtain rfl := Except.ok.inj hnew
  exact .of_none (fun _ => Ring.hasData_new Aggregates.emptyLaws hpos _ t)
    fun _ => Series.hasData_new hpos t

/-- what brings no data, and keeps the earliest time, keeps data announced -/
theorem Announced.of_hasData (ha : g.Announced) (hlength : g'.length = g.length)
    (hearliest : g'.earliest = g.earliest)
    (hcounts : ∀ t, g'.counts.ring.hasData t = true → g.counts.ring.hasData t = true)
    (hseries : ∀ t, g'.series.hasData t = true → g.series.hasData t = true) : g'.Announced := by
  intro t ht
  have hbefore : g.hasData t = true :=
    hasData_iff.mpr ((hasData_iff.mp ht).imp (hcounts t) (hseries t))
  obtain ⟨e, he, hle⟩ := available_iff.mp (ha t hbefore)
  exact available_iff.mpr ⟨e, by rwa [hearliest], by rwa [hlength]⟩

theorem Announced.advance (ha : g.Announced) (hs : g.Sound kind c) (t : Int) (counting : Bool) :
    (g.advance t counting).Announced := by
  obtain ⟨x, -, e⟩ := advance_eq hs t counting
  rw [e]
  exact ha.of_hasData rfl rfl
    (fun _ => Ring.hasData_roll Aggregates.emptyLaws hs.counts.ring.sound)
    fun _ => hs.series.hasData_startBucket

/-- the earliest time only ever becomes earlier, and comes before the end of the bucket of an event
that is noted -/
theorem Announced.observe (ha : g.Announced) (hs : g.Sound kind c) (t : Int) :
    (g.observe t).Announced ∧ (g.observe t).available (bucketAt t g.length) = true := by
  have hnoted : Sound { g with earliest := some (g.earliest.elim t fun e => min e t) } kind c :=
    ⟨hs.config_eq, hs.valid, hs.counts, hs.series⟩
  have hlength : (g.observe t).length = g.length :=
    (hs.observe t).length_eq.trans hs.length_eq.symm
  have hearliest : (g.observe t).earliest = some (g.earliest.elim t fun e => min e t) :=
    earliest_advance hnoted t true
  refine ⟨Announced.advance (fun u hu => ?_) hnoted t true, ?_⟩
  · obtain ⟨e, he, hle⟩ := available_iff.mp (ha u hu)
    refine available_iff.mpr ⟨_, rfl, ?_⟩
    rw [he]
    exact (bucketAt_mono hs.pos (min_le_left e t)).trans hle
  · refine available_iff.mpr ⟨_, hearliest, ?_⟩
    rw [hlength]
    refine bucketAt_mono hs.pos ?_
    cases g.earliest with
    | none => exact le_rfl
    | some e => exact min_le_right e t

/-- an event whose bucket is announced may be put into it -/
theorem Announced.record (ha : g.Announced) (hs : g.Sound kind c) {t : Int}
    (ht : g.available (bucketAt t g.length) = true) (e : Event) (p : Pair) :
    (g.record e t p).Announced := by
  have hcounts (f : Aggregates → Aggregates) {u : Int}
      (hu : (g.counts.ring.modify t f).hasData u = true) :
      g.available (bucketAt u g.length) = true := by
    rcases Ring.hasData_modify hs.counts.ring.sound hu with hold | hown
    · exact ha u (hasData_iff.mpr (.inl hold))
    · rw [hs.counts.ring.length_eq, ← hs.length_eq] at hown
      rwa [hown]
  have hseries {u : Int} (hu : (g.series.add t p e).hasData u = true) :
      g.available (bucketAt u g.length) = true := by
    rcases hs.series.hasData_add hu with hold | hown
    · exact ha u (hasData_iff.mpr (.inr hold))
    · rw [← hs.length_eq] at hown
      rwa [hown]
  unfold Gatherer.record
  simp only
  split
  · exact ha
  · split
    · exact fun u hu => (hasData_iff.mp hu).elim (hcounts _) fun h => ha u (hasData_iff.mpr (.inr h))
    · exact fun u hu => (hasData_iff.mp hu).elim (hcounts _) hseries

theorem Announced.add (ha : g.Announced) (hs : g.Sound kind c) (d : Directory) (e : Event) :
    (g.add d e).2.Announced := by
  have hadds := adds g d e
  generalize g.add d e = r at hadds
  cases hadds with
  | untimed => exact ha
  | refused => exact ha
  | late => exact ha
  | ignored => exact ha
  | noted => exact (ha.observe hs _).1
  | @taken t p =>
    have hwide : (g.widen p).Announced := ha
    obtain ⟨hobserved, havailable⟩ := hwide.observe (hs.widen p) t
    have hsound := (hs.widen p).observe t
    refine hobserved.record hsound ?_ e p
    rwa [hsound.length_eq, ← (hs.widen p).length_eq]

theorem Announced.retainPeople (ha : g.Announced) (hs : g.Sound kind c) (keeps : Nat → Bool) :
    (g.retainPeople keeps).Announced :=
  ha.of_hasData rfl rfl
    (fun _ => Window.hasData_retain Aggregates.emptyLaws hs.counts.ring.sound)
    fun _ => hs.series.hasData_retainPeople

theorem Announced.retainAttributes (ha : g.Announced) (hs : g.Sound kind c) (keeps : Nat → Bool) :
    (g.retainAttributes keeps).Announced :=
  ha.of_hasData rfl rfl
    (fun _ => Window.hasData_retain Aggregates.emptyLaws hs.counts.ring.sound)
    fun _ => hs.series.hasData_retainAttributes

/-- no operation brings data to a bucket that is not announced -/
theorem Announced.perform (ha : g.Announced) (hs : g.Sound kind c) (op : Op) :
    (g.perform op).2.Announced := by
  have hring := hs.counts.ring.sound
  cases op with
  | add d e => exact ha.add hs d e
  | tick t =>
    show (g.tick t).2.Announced
    unfold Gatherer.tick
    split
    · exact ha
    · exact ha.advance hs t true
  | sample t =>
    refine (ha.advance hs (g.lastCall t) true).of_hasData rfl rfl (fun u hu => ?_) fun u hu => ?_
    · change (Window.sample _ _).ring.hasData u = true at hu
      rwa [Window.ring_sample] at hu
    · change (Series.sample _ _).hasData u = true at hu
      rwa [Series.hasData_sample] at hu
  | skip t => exact ha.advance hs (g.lastCall t) false
  | restart t =>
    exact .of_none (fun _ => Ring.hasData_reset Aggregates.emptyLaws hring _)
      (hs.series.hasData_reset _)
  | recyclePeople ids => exact ha.retainPeople hs fun id => id ∉ ids
  | recycleAttributes ids => exact ha.retainAttributes hs fun id => id ∉ ids
  | removePeople lowest => exact ha.retainPeople hs fun id => decide (id < lowest)
  | removeAttributes lowest => exact ha.retainAttributes hs fun id => decide (id < lowest)
  | release cutoff =>
    exact ha.of_hasData rfl rfl (fun _ => Window.hasData_release Aggregates.emptyLaws hring)
      fun _ => hs.series.hasData_release
  | resetBucket t =>
    show (g.resetBucket t).2.Announced
    unfold Gatherer.resetBucket
    split
    · exact ha.of_hasData rfl rfl (fun _ => Window.hasData_emptyBucket Aggregates.emptyLaws hring)
        fun _ => hs.series.hasData_emptyBucket
    · exact ha
  | clear =>
    exact .of_none (fun _ => Ring.hasData_clear Aggregates.emptyLaws) (Series.hasData_clear _)

theorem Announced.run (ha : g.Announced) (hs : g.Sound kind c) (ops : List Op) :
    (g.run ops).Announced := by
  induction ops generalizing g with
  | nil => exact ha
  | cons op ops ih => exact ih (ha.perform hs op) (hs.perform op)

/-! ## the search -/

/-- the bucket starts of `[first, stop)` that are retained and have data available -/
def samplable (g : Gatherer) (first stop : Int) : Set Int :=
  {b | g.length ∣ b ∧ first ≤ b ∧ b < stop ∧ g.counts.ring.contains b = true ∧
    g.available b = true}

/-- looking at one bucket after the other, from `t` on: the first one before `stop` that is retained
and has data available, or else `stop` -/
inductive Searches (g : Gatherer) (stop : Int) : Int → Int → Prop
  | past {t : Int} (hend : stop ≤ t) : Searches g stop t stop
  | found {t : Int} (hin : t < stop)
      (ht : g.counts.ring.contains t = true ∧ g.available t = true) : Searches g stop t t
  | next {t u : Int} (hin : t < stop)
      (ht : ¬(g.counts.ring.contains t = true ∧ g.available t = true))
      (rest : Searches g stop (t + g.length) u) : Searches g stop t u

/-- the first one of some bucket starts, `stop` if there are none -/
def IsFirst (starts : Set Int) (stop u : Int) : Prop := IsLeast starts u ∨ starts = ∅ ∧ u = stop

theorem IsFirst.unique {starts : Set Int} {stop u v : Int} (hu : IsFirst starts stop u)
    (hv : IsFirst starts stop v) : u = v := by
  rcases hu with hu | ⟨hempty, rfl⟩ <;> rcases hv with hv | ⟨hempty', rfl⟩
  · exact hu.unique hv
  · exact absurd hu.1 (hempty' ▸ Set.notMem_empty u)
  · exact absurd hv.1 (hempty ▸ Set.notMem_empty v)
  · rfl

/-- each step brings the search a bucket closer to its end -/
theorem exists_searches (hpos : 0 < g.length) (stop t : Int) : ∃ u, Searches g stop t u := by
  induction hn : (stop - t).toNat using Nat.strong_induction_on generalizing t with
  | _ n ih =>
    rcases le_or_gt stop t with hend | hin
    · exact ⟨stop, .past hend⟩
    · by_cases ht : g.counts.ring.contains t = true ∧ g.available t = true
      · exact ⟨t, .found hin ht⟩
      · obtain ⟨u, hu⟩ := ih (stop - (t + g.length)).toNat (by omega) (t + g.length) rfl
        exact ⟨u, .next hin ht hu⟩

theorem Searches.isFirst {stop t u : Int} (h : Searches g stop t u) (hpos : 0 < g.length)
    (ht : g.length ∣ t) : IsFirst (g.samplable t stop) stop u := by
  induction h with
  | past hend =>
    refine .inr ⟨Set.eq_empty_iff_forall_notMem.mpr ?_, rfl⟩
    rintro b ⟨-, hfirst, hlast, -⟩
    omega
  | found hin hok => exact .inl ⟨⟨ht, le_rfl, hin, hok⟩, fun b hb => hb.2.1⟩
  | @next t u hin hno rest ih =>
    -- no start is left out between one bucket and the next
    have hsame : g.samplable t stop = g.samplable (t + g.length) stop := by
      ext b
      constructor
      · rintro ⟨hb, hfirst, hlast, hok⟩
        refine ⟨hb, ?_, hlast, hok⟩
        have hne : b ≠ t := fun e => hno (e ▸ hok)
        have := Int.le_of_dvd (by omega) (Int.dvd_sub hb ht)
        omega
      · rintro ⟨hb, hfirst, hlast, hok⟩
        exact ⟨hb, by omega, hlast, hok⟩
    rw [hsame]
    exact ih (Int.dvd_add ht (Int.dvd_refl _))

theorem dvd_firstWithin (g : Gatherer) (start : Int) : g.length ∣ g.firstWithin start := by
  unfold firstWithin
  simp only
  split
  · exact Int.dvd_add (dvd_bucketAt _ _) (Int.dvd_refl _)
  · exact dvd_bucketAt _ _

/-- the search begins with the first bucket start that is not before the interval -/
theorem firstWithin_le_iff (hpos : 0 < g.length) {start b : Int} (hb : g.length ∣ b) :
    g.firstWithin start ≤ b ↔ start ≤ b := by
  have hle := bucketAt_le start hpos
  have hlt := lt_bucketAfter start hpos
  unfold bucketAfter at hlt
  unfold firstWithin
  simp only
  split
  next hbefore =>
    constructor
    · intro h
      omega
    · intro h
      have := Int.le_of_dvd (by omega) (Int.dvd_sub hb (dvd_bucketAt start g.length))
      omega
  next hon =>
    constructor <;> intro h <;> omega

theorem samplable_firstWithin (hpos : 0 < g.length) (start stop : Int) :
    g.samplable (g.firstWithin start) stop = g.samplable start stop := by
  ext b
  exact and_congr_right fun hb => and_congr_left fun _ => firstWithin_le_iff hpos hb

end Gatherer

namespace Ring
variable {α : Type} {r : Ring α}

theorem mem_starts (h : r.Sound) {s : Int} :
    s ∈ r.starts ↔ r.length ∣ s ∧ r.contains s = true := by
  obtain ⟨n, hn, ho⟩ := h.exists_newest
  unfold starts
  rw [List.mem_map]
  constructor
  · rintro ⟨k, hk, rfl⟩
    have hk := List.mem_range.mp hk
    have e : r.oldest + k * r.length = r.length * (n - (r.capacity - 1) + k) := by
      rw [ho]
      ring
    rw [e, contains_mul_iff h hn]
    exact ⟨Int.dvd_mul_right _ _, by omega, by omega⟩
  · rintro ⟨⟨b, rfl⟩, hin⟩
    rw [contains_mul_iff h hn] at hin
    refine ⟨(b - (n - (r.capacity - 1))).toNat, List.mem_range.mpr (by omega), ?_⟩
    rw [Int.toNat_of_nonneg (by omega), ho]
    ring

theorem starts_ascending (h : r.Sound) : r.starts.Pairwise (· < ·) := by
  unfold starts
  refine List.pairwise_map.mpr (List.pairwise_lt_range.imp fun {i j} hij => ?_)
  have := mul_lt_mul_of_pos_right (show (i : Int) < j by exact_mod_cast hij) h.pos
  omega

end Ring

/-- of ascending numbers the first one that is found is the least one -/
theorem isLeast_of_find? {as : List Int} (has : as.Pairwise (· < ·)) {p : Int → Bool} {a : Int}
    (h : as.find? p = some a) : IsLeast {b | b ∈ as ∧ p b = true} a := by
  obtain ⟨hp, before, after, rfl, hbefore⟩ := List.find?_eq_some_iff_append.mp h
  refine ⟨⟨List.mem_append_right _ List.mem_cons_self, hp⟩, ?_⟩
  rintro b ⟨hb, hpb⟩
  rcases List.mem_append.mp hb with hb | hb
  · have hno := hbefore b hb
    rw [hpb] at hno
    cases hno
  · rcases List.mem_cons.mp hb with rfl | hb
    · exact le_rfl
    · exact ((List.pairwise_cons.mp (List.pairwise_append.mp has).2.1).1 b hb).le

namespace Gatherer
variable {g : Gatherer} {kind : SeriesKind} {c : Config}

/-- what is looked for among the buckets of the window is what is looked for step by step -/
theorem Sound.samplable_eq (hs : g.Sound kind c) (start stop : Int) :
    g.samplable start stop = {b | b ∈ g.counts.ring.starts ∧
      (decide (0 ≤ bucketsBetween (g.firstWithin start) b g.length) && decide (b < stop) &&
        g.available b) = true} := by
  have hring := hs.counts.ring
  ext b
  rw [← samplable_firstWithin hs.pos]
  unfold samplable
  simp only [Set.mem_ofPred_eq, Ring.mem_starts hring.sound, Bool.and_eq_true, decide_eq_true_eq,
    hring.length_eq, ← hs.length_eq]
  have hreached (hb : g.length ∣ b) :
      g.firstWithin start ≤ b ↔ 0 ≤ bucketsBetween (g.firstWithin start) b g.length := by
    obtain ⟨m, hm⟩ := g.dvd_firstWithin start
    obtain ⟨n, rfl⟩ := hb
    rw [hm, bucketsBetween_mul hs.pos, mul_le_mul_iff_right₀ hs.pos]
    omega
  constructor
  · rintro ⟨hb, hfirst, hlast, hin, havailable⟩
    exact ⟨⟨hb, hin⟩, ⟨(hreached hb).mp hfirst, hlast⟩, havailable⟩
  · rintro ⟨⟨hb, hin⟩, ⟨hfirst, hlast⟩, havailable⟩
    exact ⟨hb, (hreached hb).mpr hfirst, hlast, hin, havailable⟩

theorem Sound.firstSample_spec (hs : g.Sound kind c) (start stop : Int) :
    IsFirst (g.samplable start stop) stop (g.firstSample start stop) := by
  unfold firstSample
  simp only
  split
  next hin =>
    cases hfind : g.counts.ring.starts.find? fun t =>
        decide (0 ≤ bucketsBetween (g.firstWithin start) t g.length) && decide (t < stop) &&
          g.available t with
    | some b =>
      refine .inl ?_
      rw [hs.samplable_eq]
      exact isLeast_of_find? (Ring.starts_ascending hs.counts.ring.sound) hfind
    | none =>
      refine .inr ⟨?_, rfl⟩
      rw [hs.samplable_eq, Set.eq_empty_iff_forall_notMem]
      rintro b ⟨hb, hp⟩
      exact List.find?_eq_none.mp hfind b hb hp
  next hout =>
    refine .inr ⟨?_, rfl⟩
    rw [← samplable_firstWithin hs.pos, Set.eq_empty_iff_forall_notMem]
    rintro b ⟨-, hfirst, hlast, -⟩
    omega

theorem Sound.contains_of_hasData (hs : g.Sound kind c) {t : Int} (h : g.hasData t = true) :
    g.counts.ring.contains t = true := by
  rcases hasData_iff.mp h with hcounts | hseries
  · obtain ⟨a, ha, -⟩ := Ring.hasData_iff.mp hcounts
    rw [← Ring.isSome_get? hs.counts.ring.sound, ha]
    rfl
  · rw [hs.counts.ring.contains_iff]
    exact hs.series.retains_iff.mp (Series.retains_of_hasData hseries)

/-- data of a retained bucket is reported as available, so that the search for a bucket to sample,
which always ends, finds the first retained one with data available and passes over no data -/
theorem no_data_passed_over (hr : Reachable kind c g) (hs : c.bucketLength.secs.toNat < 2 ^ 63) :
    (∀ t, g.hasData t = true → g.available (bucketAt t g.length) = true) ∧
      ∀ start stop,
        (∀ u, Searches g stop (g.firstWithin start) u ↔ u = g.firstSample start stop) ∧
        IsFirst (g.samplable start stop) stop (g.firstSample start stop) ∧
        ∀ b, g.length ∣ b → start ≤ b → b < stop → g.hasData b = true →
          g.firstSample start stop ≤ b := by
  have hsound := hr.sound hs
  have hannounced : g.Announced := by
    obtain ⟨time, g₀, ops, hnew, rfl⟩ := hr
    exact (announced_new hs hnew).run (sound_new hs hnew) ops
  refine ⟨hannounced, fun start stop => ?_⟩
  have hfirst := hsound.firstSample_spec start stop
  have hsearch {u : Int} (hu : Searches g stop (g.firstWithin start) u) :
      u = g.firstSample start stop := by
    have hu := hu.isFirst hsound.pos (g.dvd_firstWithin start)
    rw [samplable_firstWithin hsound.pos] at hu
    exact hu.unique hfirst
  refine ⟨fun u => ⟨hsearch, ?_⟩, hfirst, fun b hb hstart hstop hdata => ?_⟩
  · rintro rfl
    obtain ⟨u, hu⟩ := exists_searches hsound.pos stop (g.firstWithin start)
    exact hsearch hu ▸ hu
  · have havailable := hannounced b hdata
    rw [bucketAt_of_dvd hb] at havailable
    have hmem : b ∈ g.samplable start stop :=
      ⟨hb, hstart, hstop, hsound.contains_of_hasData hdata, havailable⟩
    rcases hfirst with hleast | ⟨hempty, -⟩
    · exact hleast.2 hmem
    · exact absurd hmem (hempty ▸ Set.notMem_empty b)

/-- an event before the epoch is found from an odd time on, also after the clock was set back -/
theorem no_data_passed_over_before_epoch :
    let c : Config := { Config.default with bucketLength := .ofSecs 60, latencyBuckets := 2 }
    let d : Directory := ⟨fun _ => .active, fun _ => .active⟩
    let e : Event := ⟨some (-70), some 0, some 0, [], some 1, none, [], false⟩
    ∃ g, new .eventRate c 100 = .ok g ∧
      (g.run [.restart (-30), .add d e]).hasData (-120) = true ∧
      (g.run [.restart (-30), .add d e]).firstSample (-125) 60 ≤ -120 := by
  intro c d e
  have hvalid : c.fault? .eventRate = none := by decide
  have hnew := new_eq hvalid 100
  have h := no_data_passed_over ⟨100, _, [.restart (-30), .add d e], hnew, rfl⟩ (by decide)
  have hdata : (Gatherer.run ⟨c, bucketAt 100 c.bucketSeconds, none, .new c 100,
      .new .eventRate c 100, .empty, ⟨0, 0⟩⟩ [.restart (-30), .add d e]).hasData (-120) = true := by
    decide +kernel
  exact ⟨_, hnew, hdata, (h.2 (-125) 60).2.2 (-120) (by decide +kernel) (by decide) (by decide) hdata⟩

end Gatherer

end EventBuckets
