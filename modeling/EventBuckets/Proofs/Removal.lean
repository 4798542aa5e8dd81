import EventBuckets.Proofs.Contents
import EventBuckets.Proofs.InStep

/-!
# What is left when ids are dropped

People and attributes are dropped by filtering every retained bucket, of the counts and of the
series alike.  What is left of a bucket is compared with the bucket before at every key, so neither
does anything of a dropped id stay behind nor is anything of another id touched.

* `Restricts`           a map has the entries of some keys as another one, and no others;
* `Aggregates.Left`, `DistinctTexts.Left`, `Metrics.Left`
                        what is left of a bucket of each kind;
* `Window.Restricted`   a window with what is left of each single bucket, in its place, and the
                        spans as they were;
* `Gatherer.Drops`      both windows are restricted to some pairs, the sample counts to some people,
                        and the clock stays;
* `drops_those_named`   each of the four operations drops the ids it names, after every run.
-/

set_option linter.unusedSectionVars false

namespace EventBuckets

/-! ## what is left of a bucket -/

/-- a map has the entries of the keys that are kept as another one has them, and no others -/
def Restricts {κ β : Type} [Ord κ] [Std.TransOrd κ] (keeps : κ → Bool)
    (m m' : Std.ExtTreeMap κ β compare) : Prop :=
  ∀ k, m'[k]? = if keeps k then m[k]? else none

theorem restricts_filter {κ β : Type} [Ord κ] [Std.TransOrd κ] [Std.LawfulEqOrd κ]
    (keeps : κ → Bool) (m : Std.ExtTreeMap κ β compare) :
    Restricts keeps m (m.filter fun k _ => keeps k) :=
  getElem?_filter_keys m keeps

/-- the counts, the nulls and, field by field, the influences of the pairs that are kept -/
structure Aggregates.Left (keeps : Pair → Bool) (a b : Aggregates) : Prop where
  counts : Restricts keeps a.counts b.counts
  nulls : ∀ p, b.nulls.contains p = true ↔ keeps p = true ∧ a.nulls.contains p = true
  influencers : List.Forall₂ (Restricts fun m => keeps m.pair) a.influencers b.influencers

theorem Aggregates.left_retain (keeps : Pair → Bool) (a : Aggregates) :
    a.Left keeps (PairData.retain keeps a) where
  counts := restricts_filter keeps a.counts
  nulls _ := contains_filter
  influencers := by
    show List.Forall₂ _ a.influencers (a.influencers.map _)
    rw [List.forall₂_map_right_iff, List.forall₂_same]
    exact fun f _ => restricts_filter (fun m => keeps m.pair) f

/-- the texts of the pairs that are kept -/
def DistinctTexts.Left (keeps : Pair → Bool) (d d' : DistinctTexts) : Prop :=
  Restricts keeps d.byPair d'.byPair

theorem DistinctTexts.left_retain (keeps : Pair → Bool) (d : DistinctTexts) :
    d.Left keeps (PairData.retain keeps d) :=
  restricts_filter keeps d.byPair

/-- the statistics of the pairs that are kept -/
def Metrics.Left (keeps : Pair → Bool) (m m' : Metrics) : Prop :=
  Restricts keeps m.byPair m'.byPair

theorem Metrics.left_retain (keeps : Pair → Bool) (m : Metrics) :
    m.Left keeps (PairData.retain keeps m) :=
  restricts_filter keeps m.byPair

/-! ## sample counts -/

theorem SampleCounts.get_retain (s : SampleCounts) (keeps : Nat → Bool) (person : Nat) :
    (s.retain keeps).get person = if keeps person then s.get person else 0 := by
  unfold SampleCounts.get SampleCounts.retain
  rw [Std.ExtTreeMap.getD_eq_getD_getElem?, Std.ExtTreeMap.getD_eq_getD_getElem?,
    getElem?_filter_keys]
  split <;> rfl

/-! ## windows -/

/-- a window lies as another one and has its spans; of each single bucket of that one it has what is
left -/
structure Window.Restricted {α : Type} [PairData α] (left : α → α → Prop) (w w' : Window α) :
    Prop where
  frame_eq : w'.frame = w.frame
  buckets : ∀ t, Option.Rel left (w.ring.get? t) (w'.ring.get? t)
  spans_eq : w'.spans = w.spans

theorem Window.restricted_retain {α : Type} [PairData α] {left : α → α → Prop} {w : Window α}
    {keeps : Pair → Bool} (hleft : ∀ a, left a (PairData.retain keeps a)) (hs : w.ring.Sound) :
    w.Restricted left (w.retain keeps) where
  frame_eq := by
    unfold Window.frame Window.retain Ring.oldest
    rw [Ring.capacity_mapTimed]
    rfl
  buckets t := by
    show Option.Rel left _ ((w.ring.mapTimed _).get? t)
    rw [Ring.get?_mapTimed hs]
    cases w.ring.get? t with
    | none => exact .none
    | some a => exact .some (hleft a)
  spans_eq := rfl

/-! ## series -/

namespace Series
variable {s : Series} {c : Config} {start : Int} {kind : SeriesKind}

/-- the window of a series has what is left of another one of its kind -/
inductive Restricted (keeps : Pair → Bool) : Series → Series → Prop
  | occurrences {s s' : Occurrences} (window : s.window.Restricted (DistinctTexts.Left keeps)
      s'.window) : Restricted keeps (.occurrences s) (.occurrences s')
  | measured {s s' : Measured} (window : s.window.Restricted (Metrics.Left keeps) s'.window)
      (weight_eq : s'.weight = s.weight) : Restricted keeps (.measured s) (.measured s')

theorem Fits.restricted_retainPeople (h : s.Fits c start kind) (keeps : Nat → Bool) :
    s.Restricted (fun p => keeps p.person) (s.retainPeople keeps) := by
  cases h with
  | occurrences window =>
    exact .occurrences (Window.restricted_retain (DistinctTexts.left_retain _) window.ring.sound)
  | measured window samples weight =>
    exact .measured (Window.restricted_retain (Metrics.left_retain _) window.ring.sound) rfl

theorem Fits.restricted_retainAttributes (h : s.Fits c start kind) (keeps : Nat → Bool) :
    s.Restricted (fun p => keeps p.attr) (s.retainAttributes keeps) := by
  cases h with
  | occurrences window =>
    exact .occurrences (Window.restricted_retain (DistinctTexts.left_retain _) window.ring.sound)
  | measured window samples weight =>
    exact .measured (Window.restricted_retain (Metrics.left_retain _) window.ring.sound) rfl

/-- the sample count of a person that is dropped becomes zero, where there are sample counts -/
theorem sampleCount?_retainPeople (s : Series) (keeps : Nat → Bool) (person : Nat) :
    (s.retainPeople keeps).sampleCount? person =
      (s.sampleCount? person).map fun x => if keeps person then x else 0 := by
  cases s with
  | occurrences s => rfl
  | measured s => exact congrArg some (s.samples.get_retain keeps person)

theorem sampleCount?_retainAttributes (s : Series) (keeps : Nat → Bool) (person : Nat) :
    (s.retainAttributes keeps).sampleCount? person = s.sampleCount? person := by
  cases s <;> rfl

end Series

/-! ## gatherers -/

namespace Gatherer
variable {g : Gatherer} {kind : SeriesKind} {c : Config}

/-- `h` has in each retained bucket what `g` has of the pairs that are kept, and the sample counts
of the people that are kept; the spans and the clock are those of `g` -/
structure Drops (keeps : Pair → Bool) (keepsPerson : Nat → Bool) (g h : Gatherer) : Prop where
  counts : g.counts.Restricted (Aggregates.Left keeps) h.counts
  series : g.series.Restricted keeps h.series
  samples : ∀ person, h.series.sampleCount? person =
    (g.series.sampleCount? person).map fun x => if keepsPerson person then x else 0
  config_eq : h.config = g.config
  start_eq : h.start = g.start
  oldest_eq : h.oldest = g.oldest
  earliest_eq : h.earliest = g.earliest

theorem Sound.drops_people (hs : g.Sound kind c) (keeps : Nat → Bool) :
    g.Drops (fun p => keeps p.person) keeps (g.retainPeople keeps) where
  counts := Window.restricted_retain (Aggregates.left_retain _) hs.counts.ring.sound
  series := hs.series.restricted_retainPeople keeps
  samples := g.series.sampleCount?_retainPeople keeps
  config_eq := rfl
  start_eq := rfl
  oldest_eq := rfl
  earliest_eq := rfl

theorem Sound.drops_attributes (hs : g.Sound kind c) (keeps : Nat → Bool) :
    g.Drops (fun p => keeps p.attr) (fun _ => true) (g.retainAttributes keeps) where
  counts := Window.restricted_retain (Aggregates.left_retain _) hs.counts.ring.sound
  series := hs.series.restricted_retainAttributes keeps
  samples person := by
    show (g.series.retainAttributes keeps).sampleCount? person = _
    rw [g.series.sampleCount?_retainAttributes]
    cases g.series.sampleCount? person <;> rfl
  config_eq := rfl
  start_eq := rfl
  oldest_eq := rfl
  earliest_eq := rfl

/-- the room that is left for ids is not part of what is compared -/
theorem Drops.withBounds {keeps : Pair → Bool} {keepsPerson : Nat → Bool} {h : Gatherer}
    (hd : g.Drops keeps keepsPerson h) (bounds : IdBounds) :
    g.Drops keeps keepsPerson { h with bounds } :=
  ⟨hd.counts, hd.series, hd.samples, hd.config_eq, hd.start_eq, hd.oldest_eq, hd.earliest_eq⟩

/-- after every run, recycling drops the ids that are listed and removing drops those from one on,
in every retained bucket and nowhere else; only people have sample counts that become zero -/
theorem drops_those_named (hr : Reachable kind c g) (hs : c.bucketLength.secs.toNat < 2 ^ 63)
    (ids : List Nat) (lowest : Nat) :
    g.Drops (fun p => p.person ∉ ids) (fun person => person ∉ ids) (g.recyclePeople ids) ∧
      g.Drops (fun p => p.person < lowest) (fun person => person < lowest)
        (g.removePeople lowest) ∧
      g.Drops (fun p => p.attr ∉ ids) (fun _ => true) (g.recycleAttributes ids) ∧
      g.Drops (fun p => p.attr < lowest) (fun _ => true) (g.removeAttributes lowest) := by
  have hsound := hr.sound hs
  refine ⟨?_, ?_, ?_, ?_⟩
  · exact hsound.drops_people fun id => id ∉ ids
  · exact (hsound.drops_people fun id => id < lowest).withBounds _
  · exact hsound.drops_attributes fun id => id ∉ ids
  · exact (hsound.drops_attributes fun id => id < lowest).withBounds _

/-- two people with a measurement in a bucket that has left and one in a retained bucket, of whom one
is recycled -/
theorem drops_those_named_of_two :
    let c : Config := { Config.default with
      latencyBuckets := 1, multiBucketLengths := [.ofSecs 600], features := [.mean] }
    let d : Directory := ⟨fun _ => .active, fun _ => .active⟩
    let e (t : Int) (person : Nat) : Event :=
      ⟨some t, some person, some 2, [1], some 3, none, [some "host"], false⟩
    let ops : List Op := [.add d (e 310 7), .add d (e 320 8), .sample 300, .tick 900,
      .add d (e 910 7), .add d (e 920 8)]
    ∃ g, new .metric c 300 = .ok g ∧
      (g.run ops).Drops (fun p => p.person ∉ [7]) (fun person => person ∉ [7])
        ((g.run ops).recyclePeople [7]) ∧
      ((g.run ops).series.sampleCount? 7, ((g.run ops).recyclePeople [7]).series.sampleCount? 7,
        ((g.run ops).recyclePeople [7]).series.sampleCount? 8) = (some 1, some 0, some 1) ∧
      (((g.run ops).recyclePeople [7]).series.summary? 900 ⟨7, 2⟩,
        ((g.run ops).recyclePeople [7]).series.summary? 900 ⟨8, 2⟩) =
        (none, some ⟨1, [1], [1], [1]⟩) := by
  intro c d e ops
  have hvalid : c.fault? .metric = none := by decide
  have hnew := new_eq hvalid 300
  have h := drops_those_named ⟨300, _, ops, hnew, rfl⟩ (by decide) [7] 8
  exact ⟨_, hnew, h.1, by decide +kernel, by decide +kernel⟩

end Gatherer

end EventBuckets
