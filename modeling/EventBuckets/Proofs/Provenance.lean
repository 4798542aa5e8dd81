import EventBuckets.Proofs.Contents

/-!
# Where the data of buckets comes from

Whatever a single bucket says, it says because of records that were put into it.  That takes no
window that is in order, so it holds of every valid configuration, also of one with a length from
`2 ^ 63` on, which comes out negative: the clock then moves backwards, if at all.

* `Ring.Each`              each bucket of a ring, found by a time or not, has a property;
* `Ring.StemsFrom`         each bucket of a ring tells some of the records;
* `Gatherer.StemsFrom`     those of both windows do;
* `Gatherer.Recounts`      buckets tell some of the records, and exactly those of their time if
                           lengths are positive;
* `Recounts.add`, ...      what each operation makes of the records;
* `Gatherer.Mentions`      whether a retained bucket says something of a pair;
* `exists_record`          only pairs with a record are mentioned.
-/

set_option linter.unusedSectionVars false

namespace EventBuckets
open Recorded

/-! ## rings -/

namespace Ring
variable {α : Type} {r : Ring α} {P Q : α → Prop} {told : α → List Recorded → Prop}
  {records records' : List Recorded}

/-- each bucket has a property -/
def Each (r : Ring α) (P : α → Prop) : Prop := ∀ a ∈ r.slots, P a

theorem Each.of_get? (h : r.Each P) {t : Int} {a : α} (ha : r.get? t = some a) : P a := by
  unfold get? at ha
  split at ha
  · exact h a (Array.mem_of_getElem? ha)
  · cases ha

/-- one bucket is changed, the others are kept -/
theorem Each.modify (h : r.Each P) (t : Int) {f : α → α} (hkeep : ∀ a, P a → Q a)
    (hf : ∀ a, P a → Q (f a)) : (r.modify t f).Each Q := by
  unfold Ring.modify
  split
  · intro a ha
    obtain ⟨i, hi, rfl⟩ := Array.getElem_of_mem ha
    rw [Array.getElem_modify]
    rw [Array.size_modify] at hi
    have hold := h _ (Array.getElem_mem hi)
    split
    · exact hf _ hold
    · exact hkeep _ hold
  · exact fun a ha => hkeep a (h a ha)

theorem Each.mapTimed (h : r.Each P) {f : Int → α → α} (hf : ∀ start a, P a → Q (f start a)) :
    (r.mapTimed f).Each Q := by
  intro a ha
  obtain ⟨i, hi, rfl⟩ := Array.mem_mapIdx.mp ha
  exact hf _ _ (h _ (Array.getElem_mem hi))

section
variable [EmptyCollection α] (hempty : P ∅)
include hempty

theorem each_new (latency : Nat) (length t : Int) : (new latency length t : Ring α).Each P := by
  intro a ha
  obtain ⟨-, rfl⟩ := Array.mem_replicate.mp ha
  exact hempty

theorem each_clear (r : Ring α) : r.clear.Each P := by
  intro a ha
  obtain ⟨b, -, rfl⟩ := Array.mem_map.mp ha
  exact hempty

/-- rolling forward only empties buckets -/
theorem Each.roll (h : r.Each P) (t : Int) : (r.roll t).Each P := by
  have hset {slots : Array α} (hs : ∀ a ∈ slots, P a) (i : Nat) :
      ∀ a ∈ slots.setIfInBounds i ∅, P a := by
    intro a ha
    rcases Array.mem_or_eq_of_mem_setIfInBounds ha with ha | rfl
    · exact hs a ha
    · exact hempty
  have hahead (n : Nat) : ∀ a ∈ r.clearAhead n, P a := by
    induction n with
    | zero => exact h
    | succ n ih =>
      unfold clearAhead at ih ⊢
      rw [List.range_succ, List.foldl_append]
      exact hset ih _
  unfold Ring.roll push
  simp only
  split
  · exact h
  · exact hset (hahead _) _

end

/-- each bucket tells some of the records -/
def StemsFrom (r : Ring α) (told : α → List Recorded → Prop) (records : List Recorded) : Prop :=
  ∀ a ∈ r.slots, ∃ rs, rs.Sublist records ∧ told a rs

theorem StemsFrom.of_get? (h : r.StemsFrom told records) {t : Int} {a : α}
    (ha : r.get? t = some a) : ∃ rs, rs.Sublist records ∧ told a rs :=
  Each.of_get? h ha

theorem StemsFrom.mono (h : r.StemsFrom told records) (hsub : records.Sublist records') :
    r.StemsFrom told records' := by
  intro a ha
  obtain ⟨rs, hrs, htold⟩ := h a ha
  exact ⟨rs, hrs.trans hsub, htold⟩

/-- the bucket that takes a record tells it after what it told before -/
theorem StemsFrom.modify (h : r.StemsFrom told records) (t : Int) {f : α → α} {x : Recorded}
    (hf : ∀ a rs, told a rs → told (f a) (rs ++ [x])) :
    (r.modify t f).StemsFrom told (records ++ [x]) := by
  refine Each.modify h t (fun a ha => ?_) (fun a ha => ?_)
  · obtain ⟨rs, hrs, htold⟩ := ha
    exact ⟨rs, hrs.trans (List.sublist_append_left records [x]), htold⟩
  · obtain ⟨rs, hrs, htold⟩ := ha
    exact ⟨rs ++ [x], hrs.append_right [x], hf a rs htold⟩

/-- buckets that drop some of their records stem from the others -/
theorem StemsFrom.retain (h : r.StemsFrom told records) {f : α → α} {keeps : Recorded → Bool}
    (hf : ∀ a rs, told a rs → told (f a) (rs.filter keeps)) :
    (r.mapTimed fun _ => f).StemsFrom told (records.filter keeps) := by
  refine Each.mapTimed h fun _ a ha => ?_
  obtain ⟨rs, hrs, htold⟩ := ha
  exact ⟨rs.filter keeps, hrs.filter keeps, hf a rs htold⟩

section
variable [EmptyCollection α]

theorem stemsFrom_empty (hempty : told ∅ []) (records : List Recorded) :
    ∃ rs, rs.Sublist records ∧ told ∅ rs :=
  ⟨[], List.nil_sublist records, hempty⟩

theorem stemsFrom_new (hempty : told ∅ []) (latency : Nat) (length t : Int) :
    (new latency length t : Ring α).StemsFrom told [] :=
  each_new (stemsFrom_empty hempty []) latency length t

theorem stemsFrom_reset (hempty : told ∅ []) (r : Ring α) (t : Int) :
    (r.reset t).StemsFrom told [] :=
  each_clear (stemsFrom_empty hempty []) r

theorem StemsFrom.roll (hempty : told ∅ []) (h : r.StemsFrom told records) (t : Int) :
    (r.roll t).StemsFrom told records :=
  Each.roll (stemsFrom_empty hempty records) h t

end

end Ring

/-! ## series -/

namespace Series
variable {s : Series} {A : Account} {records records' : List Recorded}

/-- the buckets of the series tell some of the records -/
def StemsFrom (s : Series) (A : Account) (records : List Recorded) : Prop :=
  match s with
  | occurrences s => s.window.ring.StemsFrom A.texts records
  | measured s => s.window.ring.StemsFrom A.metrics records

theorem StemsFrom.mono (h : s.StemsFrom A records) (hsub : records.Sublist records') :
    s.StemsFrom A records' := by
  cases s with
  | occurrences s => exact Ring.StemsFrom.mono h hsub
  | measured s => exact Ring.StemsFrom.mono h hsub

theorem StemsFrom.sample (h : s.StemsFrom A records) (t : Int) :
    (s.sample t).StemsFrom A records := by
  cases s with
  | occurrences s =>
    show (s.window.sample t).ring.StemsFrom A.texts records
    rw [Window.ring_sample]
    exact h
  | measured s =>
    show (s.window.sample t).ring.StemsFrom A.metrics records
    rw [Window.ring_sample]
    exact h

section
variable (hA : A.Lawful)
include hA

theorem stemsFrom_new (kind : SeriesKind) (c : Config) (t : Int) :
    (new kind c t).StemsFrom A [] := by
  cases kind with
  | eventRate => exact Ring.stemsFrom_new hA.texts.empty _ _ t
  | metric => exact Ring.stemsFrom_new hA.metrics.empty _ _ t

theorem stemsFrom_reset (s : Series) (t : Int) : (s.reset t).StemsFrom A [] := by
  cases s with
  | occurrences s => exact Ring.stemsFrom_reset hA.texts.empty _ t
  | measured s => exact Ring.stemsFrom_reset hA.metrics.empty _ t

theorem StemsFrom.startBucket (h : s.StemsFrom A records) (t : Int) (counting : Bool) :
    (s.startBucket t counting).StemsFrom A records := by
  cases s with
  | occurrences s => exact Ring.StemsFrom.roll hA.texts.empty h t
  | measured s =>
    cases counting with
    | false => exact Ring.StemsFrom.roll hA.metrics.empty h t
    | true => exact Ring.StemsFrom.roll hA.metrics.empty h t

theorem StemsFrom.taking (h : s.StemsFrom A records) {x : Recorded} (hpos : 0 < x.count) :
    (s.taking x).StemsFrom A (records ++ [x]) := by
  have hsame := h.mono (List.sublist_append_left records [x])
  unfold Series.taking
  split
  · exact hsame
  next hnull =>
    cases s with
    | occurrences s =>
      unfold Series.add Occurrences.add
      cases ht : x.event.text with
      | none => exact hsame
      | some text =>
        refine Ring.StemsFrom.modify h x.time fun d rs hd => ?_
        have htake : d.take x = d.insert x.pair text := by simp [DistinctTexts.take, hnull, ht]
        rw [← htake]
        exact hA.texts.take hd hpos
    | measured s =>
      refine Ring.StemsFrom.modify h x.time fun m rs hm => ?_
      have htake : m.take x = m.add x.pair x.event.values := by simp [Metrics.take, hnull]
      rw [← htake]
      exact hA.metrics.take hm hpos

end

theorem StemsFrom.retainPeople (h : s.StemsFrom .contents records) (keeps : Nat → Bool) :
    (s.retainPeople keeps).StemsFrom .contents (among (fun p => keeps p.person) records) := by
  cases s with
  | occurrences s => exact Ring.StemsFrom.retain h fun d ds hd => DistinctTexts.Lists.keep hd _
  | measured s => exact Ring.StemsFrom.retain h fun m ms hm => Metrics.Summarises.keep hm _

theorem StemsFrom.retainAttributes (h : s.StemsFrom .contents records) (keeps : Nat → Bool) :
    (s.retainAttributes keeps).StemsFrom .contents (among (fun p => keeps p.attr) records) := by
  cases s with
  | occurrences s => exact Ring.StemsFrom.retain h fun d ds hd => DistinctTexts.Lists.keep hd _
  | measured s => exact Ring.StemsFrom.retain h fun m ms hm => Metrics.Summarises.keep hm _

/-- whether the single bucket that holds `time` lists a pair -/
def lists (s : Series) (time : Int) (p : Pair) : Bool :=
  (s.texts? time p).isSome || (s.summary? time p).isSome

/-- a bucket lists only pairs that have a record -/
theorem StemsFrom.exists_record (h : s.StemsFrom .contents records) {t : Int} {p : Pair}
    (hp : s.lists t p = true) : ∃ x ∈ records, x.pair = p := by
  unfold lists at hp
  cases s with
  | occurrences o =>
    have hp : ((o.window.ring.get? t).bind fun d => d.get? p).isSome = true := by
      simpa [texts?, summary?] using hp
    obtain ⟨texts, htexts⟩ := Option.isSome_iff_exists.mp hp
    obtain ⟨d, hd, hget⟩ := Option.bind_eq_some_iff.mp htexts
    obtain ⟨rs, hrs, htold⟩ := Ring.StemsFrom.of_get? h hd
    obtain ⟨x, hx, e⟩ :=
      DistinctTexts.Lists.exists_record htold (Option.isSome_of_eq_some hget)
    exact ⟨x, hrs.subset hx, e⟩
  | measured m =>
    have hp : ((m.window.ring.get? t).bind fun b => b.get? p).isSome = true := by
      simpa [texts?, summary?] using hp
    obtain ⟨y, hy⟩ := Option.isSome_iff_exists.mp hp
    obtain ⟨b, hb, hget⟩ := Option.bind_eq_some_iff.mp hy
    obtain ⟨rs, hrs, htold⟩ := Ring.StemsFrom.of_get? h hb
    obtain ⟨x, hx, e⟩ :=
      Metrics.Summarises.exists_record htold (Option.isSome_of_eq_some hget)
    exact ⟨x, hrs.subset hx, e⟩

end Series

/-! ## gatherers -/

namespace Gatherer
variable {g : Gatherer} {A : Account} {kind : SeriesKind} {c : Config}
  {records records' : List Recorded} {p : Pair} {t : Int}

/-- the buckets of both windows tell some of the records -/
structure StemsFrom (g : Gatherer) (A : Account) (records : List Recorded) : Prop where
  counts : g.counts.ring.StemsFrom A.counts records
  series : g.series.StemsFrom A records

theorem StemsFrom.mono (h : g.StemsFrom A records) (hsub : records.Sublist records') :
    g.StemsFrom A records' :=
  ⟨h.counts.mono hsub, h.series.mono hsub⟩

section
variable (hA : A.Lawful)
include hA

theorem stemsFrom_new (h : new kind c t = .ok g) : g.StemsFrom A [] := by
  unfold new at h
  split at h
  · cases h
  · obtain rfl := Except.ok.inj h
    exact ⟨Ring.stemsFrom_new hA.counts.empty _ _ t, Series.stemsFrom_new hA kind c t⟩

theorem stemsFrom_restart (g : Gatherer) (t : Int) : (g.restart t).StemsFrom A [] :=
  ⟨Ring.stemsFrom_reset hA.counts.empty _ _, g.series.stemsFrom_reset hA _⟩

theorem StemsFrom.openBucket (h : g.StemsFrom A records) (start : Int) (counting : Bool) :
    (g.openBucket start counting).StemsFrom A records :=
  ⟨h.counts.roll hA.counts.empty start, h.series.startBucket hA start counting⟩

theorem StemsFrom.advance (h : g.StemsFrom A records) (t : Int) (counting : Bool) :
    (g.advance t counting).StemsFrom A records :=
  advance_of_openBucket (P := fun g => g.StemsFrom A records)
    (fun _ start h => h.openBucket hA start counting) (fun _ _ h => ⟨h.counts, h.series⟩) h t

theorem StemsFrom.sample (h : g.StemsFrom A records) (t : Int) :
    (g.sample t).StemsFrom A records := by
  have h' := h.advance hA (g.lastCall t) true
  refine ⟨?_, h'.series.sample _⟩
  show ((g.advance (g.lastCall t) true).counts.sample _).ring.StemsFrom _ records
  rw [Window.ring_sample]
  exact h'.counts

theorem StemsFrom.observe (h : g.StemsFrom A records) (t : Int) :
    (g.observe t).StemsFrom A records :=
  StemsFrom.advance (g := { g with earliest := some (g.earliest.elim t fun e => min e t) }) hA
    ⟨h.counts, h.series⟩ t true

/-- an event leaves its record behind at most, whether or not its bucket is there -/
theorem StemsFrom.record (h : g.StemsFrom A records) (e : Event) (t : Int) (p : Pair) :
    (g.record e t p).StemsFrom A (records ++ (e.record? t p).toList) := by
  by_cases ht : g.counts.ring.contains t = true
  · obtain ⟨pool, bounds, heq⟩ := (record_alike e p ht).symm
    have hstems : ((e.record? t p).elim g g.taking).StemsFrom A
        (records ++ (e.record? t p).toList) := by
      cases hr : e.record? t p with
      | none =>
        rw [Option.toList_none, List.append_nil]
        exact h
      | some x =>
        obtain ⟨-, -, -, -, hpos⟩ := Event.of_record? hr
        have hcounts := h.counts.modify x.time fun a rs ha => hA.counts.take ha hpos
        exact ⟨hcounts, h.series.taking hA hpos⟩
    rw [heq]
    exact ⟨hstems.counts, hstems.series⟩
  · have hsame : g.record e t p = g := by
      unfold Gatherer.record
      simp [ht]
    rw [hsame]
    exact h.mono (List.sublist_append_left ..)

theorem StemsFrom.add (h : g.StemsFrom A records) (d : Directory) (e : Event) :
    (g.add d e).2.StemsFrom A (records ++ (g.recorded? d e).toList) := by
  have hadds := adds g d e
  unfold recorded?
  generalize g.add d e = r at hadds
  cases hadds with
  | untimed | refused | late => simpa using h
  | ignored ht _ hp hu => simpa [ht, hp, hu] using h
  | @noted t _ _ hp => simpa [hp] using h.observe hA t
  | @taken t p ht _ _ hp hu =>
    have hwide : (g.widen p).StemsFrom A records := ⟨h.counts, h.series⟩
    simpa [ht, hp, hu] using (hwide.observe hA t).record hA e t p

end

/-! ### what is told of the records -/

/-- buckets stem from records, and if lengths are positive they tell all of their time -/
structure Recounts (g : Gatherer) (kind : SeriesKind) (c : Config) (records : List Recorded) :
    Prop where
  stems : g.StemsFrom .contents records
  exact : c.bucketLength.secs.toNat < 2 ^ 63 →
    g.Sound kind c ∧ ∀ lo, g.Tells .contents lo records

theorem recounts_new (h : new kind c t = .ok g) : g.Recounts kind c [] :=
  ⟨stemsFrom_new Account.lawful_contents h, fun hs =>
    ⟨sound_new hs h, fun _ => tells_new Account.lawful_contents hs h⟩⟩

theorem Recounts.advance (h : g.Recounts kind c records) (t : Int) (counting : Bool) :
    (g.advance t counting).Recounts kind c records := by
  refine ⟨h.stems.advance Account.lawful_contents t counting, fun hs => ?_⟩
  obtain ⟨hsound, htells⟩ := h.exact hs
  exact ⟨hsound.advance t counting, fun lo =>
    (htells lo).advance Account.lawful_contents hsound t counting⟩

theorem Recounts.tick (h : g.Recounts kind c records) (t : Int) :
    (g.tick t).2.Recounts kind c records := by
  unfold Gatherer.tick
  split
  · exact h
  · exact h.advance t true

theorem Recounts.sample (h : g.Recounts kind c records) (t : Int) :
    (g.sample t).Recounts kind c records := by
  refine ⟨h.stems.sample Account.lawful_contents t, fun hs => ?_⟩
  obtain ⟨hsound, htells⟩ := h.exact hs
  exact ⟨hsound.sample t, fun lo => (htells lo).sample Account.lawful_contents hsound t⟩

/-- setting the clock leaves nothing of the records -/
theorem Recounts.restart (h : g.Recounts kind c records) (t : Int) :
    (g.restart t).Recounts kind c [] := by
  refine ⟨g.stemsFrom_restart Account.lawful_contents t, fun hs => ?_⟩
  obtain ⟨hsound, -⟩ := h.exact hs
  exact ⟨hsound.restart t, fun _ => hsound.tells_restart Account.lawful_contents t⟩

theorem Recounts.add (h : g.Recounts kind c records) (d : Directory) (e : Event) :
    (g.add d e).2.Recounts kind c (records ++ (g.recorded? d e).toList) := by
  refine ⟨h.stems.add Account.lawful_contents d e, fun hs => ?_⟩
  obtain ⟨hsound, htells⟩ := h.exact hs
  exact ⟨hsound.add d e, fun lo => (htells lo).add Account.lawful_contents hsound d e⟩

theorem Recounts.retainPeople (h : g.Recounts kind c records) (keeps : Nat → Bool) :
    (g.retainPeople keeps).Recounts kind c (among (fun p => keeps p.person) records) := by
  refine ⟨⟨?_, h.stems.series.retainPeople keeps⟩, fun hs => ?_⟩
  · exact h.stems.counts.retain fun _ _ ha => Aggregates.Counts.keep ha _
  · obtain ⟨hsound, htells⟩ := h.exact hs
    exact ⟨hsound.retainPeople keeps, fun lo => (htells lo).retainPeople hsound keeps⟩

theorem Recounts.retainAttributes (h : g.Recounts kind c records) (keeps : Nat → Bool) :
    (g.retainAttributes keeps).Recounts kind c (among (fun p => keeps p.attr) records) := by
  refine ⟨⟨?_, h.stems.series.retainAttributes keeps⟩, fun hs => ?_⟩
  · exact h.stems.counts.retain fun _ _ ha => Aggregates.Counts.keep ha _
  · obtain ⟨hsound, htells⟩ := h.exact hs
    exact ⟨hsound.retainAttributes keeps, fun lo => (htells lo).retainAttributes hsound keeps⟩

/-- the room made for ids says nothing of records -/
theorem Recounts.with_bounds (h : g.Recounts kind c records) (bounds : IdBounds) :
    ({ g with bounds } : Gatherer).Recounts kind c records := by
  refine ⟨⟨h.stems.counts, h.stems.series⟩, fun hs => ?_⟩
  obtain ⟨hsound, htells⟩ := h.exact hs
  exact ⟨⟨hsound.config_eq, hsound.valid, hsound.counts, hsound.series⟩,
    fun lo => ⟨(htells lo).counts, (htells lo).series⟩⟩

/-- whether the single bucket that holds `time` says something of a pair -/
def Mentions (g : Gatherer) (time : Int) (p : Pair) : Prop :=
  (∃ a, g.bucket? time = some a ∧ a.Mentions p) ∨ g.series.lists time p = true

/-- a bucket mentions only pairs that have a record -/
theorem StemsFrom.exists_record (h : g.StemsFrom .contents records) (hp : g.Mentions t p) :
    ∃ x ∈ records, x.pair = p := by
  rcases hp with ⟨a, ha, hp⟩ | hp
  · obtain ⟨rs, hrs, htold⟩ := h.counts.of_get? ha
    obtain ⟨x, hx, e⟩ := Aggregates.Counts.exists_record htold hp
    exact ⟨x, hrs.subset hx, e⟩
  · exact h.series.exists_record hp

end Gatherer

end EventBuckets
