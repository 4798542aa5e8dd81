import EventBuckets.Proofs.Coherence
import EventBuckets.Proofs.Iteration

/-!
# What a release reports

The number that is reported adds up what each of the two windows drops: a bucket once for its counts
and once for its series data, and an open span twice, whatever is in it.  So it is the number of
buckets and spans with data only if nothing of the series is dropped.

* `Window.released_eq`    what one window reports;
* `Alongside.released_eq` the window of the series reports the open spans of the counts once more;
* `Coherent.hasData_eq`   a bucket without counts has no series data;
* `Gatherer.heldUntil`    how many buckets and open spans ended by a time and have data;
* `release_counts_each_window`
                          how far the reported number is from that, after every run.
-/

set_option linter.unusedSectionVars false

namespace EventBuckets

/-! ## spans -/

namespace Spans
variable {α : Type}

/-- the lengths whose open span ended by `cutoff` -/
def endedLengths (s : Spans α) (cutoff : Int) : List Int :=
  s.lengths.filter fun length =>
    (s.start? length).any fun start => bucketAfter start length ≤ cutoff

theorem released_eq (s : Spans α) (cutoff : Int) :
    (s.release cutoff).2 = (s.endedLengths cutoff).length := by
  unfold endedLengths lengths
  rw [← List.countP_eq_length_filter, ← Std.ExtTreeMap.map_fst_toList_eq_keys, List.countP_map]
  refine List.countP_congr fun e he => ?_
  obtain ⟨length, span⟩ := e
  unfold start?
  rw [Function.comp_apply, Std.ExtTreeMap.mem_toList_iff_getElem?_eq_some.mp he]
  cases span <;> rfl

end Spans

/-! ## windows -/

namespace Window
variable {α β : Type} [PairData α] [PairData β] {w : Window α} {w' : Window β} {c : Config}
  {start cutoff t : Int} {R : α → β → Prop}

/-- the starts of the single buckets that ended by `cutoff` -/
def endedStarts (w : Window α) (cutoff : Int) : List Int :=
  w.ring.starts.filter fun start => bucketAfter start w.ring.length ≤ cutoff

/-- a window reports the single buckets that ended and have data, and the open spans that ended -/
theorem released_eq (hs : w.ring.Sound) (cutoff : Int) :
    (w.release cutoff).2 =
      (w.endedStarts cutoff).countP w.ring.hasData + (w.spans.endedLengths cutoff).length := by
  let found (e : Int × Option α) : Bool := e.2.any (releasable w.ring.length cutoff e.1)
  have hbuckets : (w.ring.entries.countP fun e => releasable w.ring.length cutoff e.1 e.2) =
      (w.endedStarts cutoff).countP w.ring.hasData := calc
    _ = (w.ring.entries.map fun e => (e.1, some e.2)).countP found := by
      rw [List.countP_map]
      rfl
    _ = (w.ring.starts.map fun s => (s, w.ring.get? s)).countP found := by
      rw [Ring.entries_eq_starts hs]
    _ = w.ring.starts.countP fun s =>
        w.ring.hasData s && decide (bucketAfter s w.ring.length ≤ cutoff) := by
      rw [List.countP_map]
      refine List.countP_congr fun s _ => ?_
      show (w.ring.get? s).any (releasable w.ring.length cutoff s) = true ↔
        ((w.ring.get? s).any (fun bucket => !PairData.isEmpty bucket) && _) = true
      cases w.ring.get? s with
      | none => exact Iff.rfl
      | some bucket => rw [Option.any_some, Option.any_some, releasable, Bool.and_comm]
    _ = (w.endedStarts cutoff).countP w.ring.hasData := List.countP_filter.symm
  show _ + (w.spans.release cutoff).2 = _
  rw [hbuckets, Spans.released_eq]

theorem Fits.endedStarts_eq (hf : w.Fits c start) (hf' : w'.Fits c start) (cutoff : Int) :
    w'.endedStarts cutoff = w.endedStarts cutoff := by
  unfold endedStarts Ring.starts
  rw [hf.ring.capacity_eq, hf'.ring.capacity_eq, hf.ring.oldest_eq, hf'.ring.oldest_eq,
    hf.ring.length_eq, hf'.ring.length_eq]

theorem Alongside.lengths_eq (h : w.Alongside R w') : w'.spans.lengths = w.spans.lengths := by
  have hsame : w'.spans.byLength.map (fun _ _ => ()) = w.spans.byLength.map fun _ _ => () := by
    apply Std.ExtTreeMap.ext_getElem?
    intro length
    rw [Std.ExtTreeMap.getElem?_map, Std.ExtTreeMap.getElem?_map]
    have hspan := h.spans length
    generalize w.spans.byLength[length]? = o at hspan
    generalize w'.spans.byLength[length]? = o' at hspan
    cases hspan <;> rfl
  have hkeys := congrArg Std.ExtTreeMap.keys hsame
  rwa [Std.ExtTreeMap.keys_map, Std.ExtTreeMap.keys_map] at hkeys

theorem Alongside.start?_eq (h : w.Alongside R w') (length : Int) :
    w'.spans.start? length = w.spans.start? length := by
  unfold Spans.start?
  have hspan := h.spans length
  generalize w.spans.byLength[length]? = o at hspan
  generalize w'.spans.byLength[length]? = o' at hspan
  cases hspan with
  | none => rfl
  | some hopen =>
    cases hopen with
    | none => rfl
    | some hstart => exact congrArg some hstart.1.symm

/-- the one window reports its own buckets, but the open spans of the other one once more -/
theorem Alongside.released_eq (h : w.Alongside R w') (hf : w.Fits c start) (hf' : w'.Fits c start)
    (cutoff : Int) : (w'.release cutoff).2 =
      (w.endedStarts cutoff).countP w'.ring.hasData + (w.spans.endedLengths cutoff).length := by
  have hlengths : w'.spans.endedLengths cutoff = w.spans.endedLengths cutoff := by
    unfold Spans.endedLengths
    rw [h.lengths_eq]
    simp only [h.start?_eq]
  rw [Window.released_eq hf'.ring.sound, hf.endedStarts_eq hf', hlengths]

/-- where the one window has data the other one has -/
theorem Alongside.hasData (h : w.Alongside R w')
    (hR : ∀ a b, R a b → PairData.isEmpty a = true → PairData.isEmpty b = true)
    (hdata : w'.ring.hasData t = true) : w.ring.hasData t = true := by
  obtain ⟨b, hb, hfull⟩ := Ring.hasData_iff.mp hdata
  have hbucket := h.buckets t
  rw [hb] at hbucket
  generalize ha : w.ring.get? t = o at hbucket
  cases hbucket with
  | @some a b hab =>
    refine Ring.hasData_iff.mpr ⟨a, ha, Bool.eq_false_iff.mpr fun hempty => ?_⟩
    rw [hR a b hab hempty] at hfull
    cases hfull

/-- whether a span of a length is open and has data -/
def spanHasData (w : Window α) (length : Int) : Bool :=
  w.spans.byLength[length]?.join.any fun span => !PairData.isEmpty span.contents

end Window

namespace Series

/-- whether a span of a length is open in the series and has data -/
def spanHasData (s : Series) (length : Int) : Bool :=
  match s with
  | occurrences s => s.window.spanHasData length
  | measured s => s.window.spanHasData length

end Series

theorem DistinctTexts.Within.isEmpty {d : DistinctTexts} {a : Aggregates} (h : d.Within a)
    (ha : a.isEmpty = true) : PairData.isEmpty d = true := by
  refine Std.ExtTreeMap.isEmpty_iff.mpr (Std.ExtTreeMap.ext_getElem? fun p => ?_)
  rw [Std.ExtTreeMap.getElem?_empty]
  by_contra hsome
  obtain ⟨texts, htexts⟩ := Option.ne_none_iff_exists'.mp hsome
  obtain ⟨n, hn, -⟩ := h p texts htexts
  rw [(Aggregates.isEmpty_iff.mp ha).1] at hn
  cases hn

theorem Metrics.Within.isEmpty {m : Metrics} {a : Aggregates} (h : m.Within a)
    (ha : a.isEmpty = true) : PairData.isEmpty m = true := by
  refine Std.ExtTreeMap.isEmpty_iff.mpr (Std.ExtTreeMap.ext_getElem? fun p => ?_)
  have hp := h p
  rw [(Aggregates.isEmpty_iff.mp ha).1, Std.ExtTreeMap.getElem?_empty] at hp
  rw [Std.ExtTreeMap.getElem?_empty]
  show m.get? p = none
  generalize m.get? p = o at hp
  cases hp
  rfl

namespace Gatherer
variable {g : Gatherer} {kind : SeriesKind} {c : Config} {cutoff : Int}

/-- the starts of the retained buckets that ended by `cutoff` -/
def endedBuckets (g : Gatherer) (cutoff : Int) : List Int := g.counts.endedStarts cutoff

/-- the lengths of the open spans that ended by `cutoff` -/
def endedSpans (g : Gatherer) (cutoff : Int) : List Int := g.counts.spans.endedLengths cutoff

/-- whether a span of a length is open and has data in either window -/
def spanHasData (g : Gatherer) (length : Int) : Bool :=
  g.counts.spanHasData length || g.series.spanHasData length

/-- the number of retained buckets and open spans that ended by `cutoff` and have data in either
window -/
def heldUntil (g : Gatherer) (cutoff : Int) : Nat :=
  (g.endedBuckets cutoff).countP g.hasData + (g.endedSpans cutoff).countP g.spanHasData

/-- the series reports the same open spans as the counts, and its own buckets -/
theorem Coherent.released_series (hg : g.Coherent) (hs : g.Sound kind c) (cutoff : Int) :
    (g.series.release cutoff).2 =
      (g.endedBuckets cutoff).countP g.series.hasData + (g.endedSpans cutoff).length := by
  have hseries := hs.series
  unfold Coherent at hg
  generalize g.series = s at hg hseries
  cases hseries with
  | occurrences window => exact hg.released_eq hs.counts window cutoff
  | measured window samples weight => exact hg.released_eq hs.counts window cutoff

/-- a bucket with series data has counts -/
theorem Coherent.hasData_eq (hg : g.Coherent) (t : Int) :
    g.hasData t = g.counts.ring.hasData t := by
  have hdata : g.series.hasData t = true → g.counts.ring.hasData t = true := by
    unfold Coherent at hg
    generalize g.series = s at hg
    cases s with
    | occurrences s => exact hg.hasData fun a d h => h.2.isEmpty
    | measured s => exact hg.hasData fun a m h => h.2.isEmpty
  rw [Bool.eq_iff_iff, hasData_iff]
  exact or_iff_left_of_imp hdata

/-- after every run, what a release reports adds up the buckets with counts, those with series data,
and twice the open spans.  That is the number of buckets and spans with data only if nothing of the
series is dropped -/
theorem release_counts_each_window (hr : Reachable kind c g)
    (hs : c.bucketLength.secs.toNat < 2 ^ 63) (cutoff : Int) :
    (g.release cutoff).1 =
        (g.endedBuckets cutoff).countP g.counts.ring.hasData
          + (g.endedBuckets cutoff).countP g.series.hasData + 2 * (g.endedSpans cutoff).length ∧
      g.heldUntil cutoff ≤ (g.release cutoff).1 ∧
      ((g.release cutoff).1 = g.heldUntil cutoff ↔
        (∀ start ∈ g.endedBuckets cutoff, g.series.hasData start = false) ∧
          g.endedSpans cutoff = []) := by
  have hsound := hr.sound hs
  obtain ⟨time, g₀, ops, hnew, rfl⟩ := hr
  have hcoherent := ((sharesRecords_new hs hnew).run (sound_new hs hnew) ops).coherent
  generalize g₀.run ops = g at hsound hcoherent
  have hreleased : (g.release cutoff).1 = (g.endedBuckets cutoff).countP g.counts.ring.hasData
      + (g.endedBuckets cutoff).countP g.series.hasData + 2 * (g.endedSpans cutoff).length := by
    show (g.counts.release cutoff).2 + (g.series.release cutoff).2 = _
    rw [Window.released_eq hsound.counts.ring.sound, hcoherent.released_series hsound]
    unfold endedBuckets endedSpans
    omega
  have hheld : g.heldUntil cutoff = (g.endedBuckets cutoff).countP g.counts.ring.hasData
      + (g.endedSpans cutoff).countP g.spanHasData := by
    unfold heldUntil
    rw [funext hcoherent.hasData_eq]
  have hspans : (g.endedSpans cutoff).countP g.spanHasData ≤ (g.endedSpans cutoff).length :=
    List.countP_le_length
  have hseries : (g.endedBuckets cutoff).countP g.series.hasData = 0 ↔
      ∀ start ∈ g.endedBuckets cutoff, g.series.hasData start = false := by
    rw [List.countP_eq_zero]
    simp only [Bool.not_eq_true]
  refine ⟨hreleased, by omega, ?_⟩
  rw [← hseries, ← List.length_eq_zero_iff]
  omega

/-- a bucket with a text, and a span it was taken into: each of the two is counted twice -/
theorem release_counts_each_window_of_text :
    let c : Config := { Config.default with
      latencyBuckets := 1, multiBucketLengths := [.ofSecs 600], features := [.countByPair] }
    let d : Directory := ⟨fun _ => .active, fun _ => .active⟩
    let e : Event := ⟨some 310, some 7, some 2, [], some 3, some "home", [some "host"], false⟩
    let ops : List Op := [.add d e, .sample 300]
    ∃ g, new .eventRate c 300 = .ok g ∧
      (g.run ops).heldUntil 600 ≤ ((g.run ops).release 600).1 ∧
      ((g.run ops).heldUntil 600, ((g.run ops).release 600).1) = (2, 4) := by
  intro c d e ops
  have hvalid : c.fault? .eventRate = none := by decide
  have hnew := new_eq hvalid 300
  have h := release_counts_each_window ⟨300, _, ops, hnew, rfl⟩ (by decide) 600
  exact ⟨_, hnew, h.2.1, by decide +kernel⟩

end Gatherer

end EventBuckets
