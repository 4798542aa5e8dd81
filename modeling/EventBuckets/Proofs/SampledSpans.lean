import EventBuckets.Proofs.Sound

/-!
# What samples leave in a span

Buckets come in any order of their times.  Of each length the latest span that one of them falls
into is open in the end, and a bucket that falls into it is merged whenever it comes: one of an
earlier span that comes between is left out and does no harm, and what came before the span was
opened is gone.

* `Spans.sampleAll`      takes buckets with their times, one after the other;
* `Spans.merged`         the buckets of a span, merged in turn;
* `sampled_of_lt`, `sampled_of_eq`, `sampled_of_gt`
                         what a bucket does to an open span that is earlier, its own, or later;
* `sampled_merged`       the open span stays the latest one, with its buckets merged;
* `get?_sampleAll`       so after any samples the spans give the latest span of each length.
-/

set_option linter.unusedSectionVars false

namespace EventBuckets

namespace Spans
variable {α : Type} [EmptyCollection α] [Merge α] {length start time : Int} {contents bucket : α}
  {samples : List (Int × α)}

/-- takes buckets with their times, one after the other -/
def sampleAll (s : Spans α) (samples : List (Int × α)) : Spans α :=
  samples.foldl (fun s x => s.sample x.1 x.2) s

/-- the buckets that fall into the span of a length from `start` on, merged in turn -/
def merged (length start : Int) (samples : List (Int × α)) : α :=
  ((samples.filter fun x => bucketAt x.1 length = start).map Prod.snd).foldl merge ∅

/-! ## one bucket -/

theorem sampled_none :
    sampled time bucket length none = some ⟨bucketAt time length, merge ∅ bucket⟩ := rfl

theorem sampled_of_lt (h : start < bucketAt time length) :
    sampled time bucket length (some ⟨start, contents⟩) =
      some ⟨bucketAt time length, merge ∅ bucket⟩ := by
  simp [sampled, h.ne, h.not_gt]

theorem sampled_of_eq (h : bucketAt time length = start) :
    sampled time bucket length (some ⟨start, contents⟩) =
      some ⟨start, merge contents bucket⟩ := by
  simp [sampled, h]

theorem sampled_of_gt (h : bucketAt time length < start) :
    sampled time bucket length (some ⟨start, contents⟩) = some ⟨start, contents⟩ := by
  simp [sampled, h, h.ne']

/-! ## the buckets of a span -/

theorem merged_concat (length start : Int) (samples : List (Int × α)) (x : Int × α) :
    merged length start (samples ++ [x]) =
      if bucketAt x.1 length = start then merge (merged length start samples) x.2
      else merged length start samples := by
  unfold merged
  rw [List.filter_append, List.map_append, List.foldl_append]
  by_cases h : bucketAt x.1 length = start
  · rw [if_pos h, List.filter_cons_of_pos (by simpa using h)]
    rfl
  · rw [if_neg h, List.filter_cons_of_neg (by simpa using h)]
    rfl

/-- no bucket has come to a span that is later than all of them -/
theorem merged_of_lt (h : ∀ x ∈ samples, bucketAt x.1 length < start) :
    merged length start samples = ∅ := by
  have hnone : (samples.filter fun x => bucketAt x.1 length = start) = [] :=
    List.filter_eq_nil_iff.mpr fun x hx heq => (h x hx).ne (of_decide_eq_true heq)
  unfold merged
  rw [hnone]
  rfl

/-- where the spans of a length start that buckets fall into -/
def startsOf (length : Int) (samples : List (Int × α)) : Set Int :=
  {start | ∃ x ∈ samples, bucketAt x.1 length = start}

theorem startsOf_concat (length : Int) (samples : List (Int × α)) (x : Int × α) :
    startsOf length (samples ++ [x]) = insert (bucketAt x.1 length) (startsOf length samples) := by
  ext start
  simp only [startsOf, Set.mem_ofPred_eq, Set.mem_insert_iff, List.mem_append, List.mem_singleton,
    or_and_right, exists_or, exists_eq_left]
  rw [or_comm, eq_comm]

/-- the latest span of the buckets so far, with those of them that fall into it, becomes that of the
buckets with one more -/
theorem sampled_merged (hlatest : IsGreatest (startsOf length samples) start) (x : Int × α) :
    sampled x.1 x.2 length (some ⟨start, merged length start samples⟩) =
      some ⟨max (bucketAt x.1 length) start,
        merged length (max (bucketAt x.1 length) start) (samples ++ [x])⟩ := by
  have hle (y : Int × α) (hy : y ∈ samples) : bucketAt y.1 length ≤ start :=
    hlatest.2 ⟨y, hy, rfl⟩
  rcases lt_trichotomy (bucketAt x.1 length) start with hlt | heq | hgt
  · rw [sampled_of_gt hlt, max_eq_right hlt.le, merged_concat, if_neg hlt.ne]
  · rw [sampled_of_eq heq, max_eq_right heq.le, merged_concat, if_pos heq]
  · rw [sampled_of_lt hgt, max_eq_left hgt.le, merged_concat, if_pos rfl,
      merged_of_lt fun y hy => (hle y hy).trans_lt hgt]

/-! ## all of them -/

theorem sampleAll_concat (s : Spans α) (samples : List (Int × α)) (x : Int × α) :
    s.sampleAll (samples ++ [x]) = (s.sampleAll samples).sample x.1 x.2 :=
  List.foldl_concat _ _ _ _

theorem getElem?_sample (s : Spans α) (time : Int) (bucket : α) (length : Int) :
    (s.sample time bucket).byLength[length]? =
      s.byLength[length]?.map (sampled time bucket length) :=
  Std.ExtTreeMap.getElem?_map

/-- a length that is not there does not come with samples -/
theorem getElem?_sampleAll_of_none {s : Spans α} (hno : s.byLength[length]? = none)
    (samples : List (Int × α)) : (s.sampleAll samples).byLength[length]? = none := by
  induction samples using List.reverseRecOn with
  | nil => exact hno
  | append_singleton samples x ih =>
    rw [sampleAll_concat, getElem?_sample, ih]
    rfl

/-- where no span of a length was open, the latest one is open in the end, with the buckets that
fall into it merged -/
theorem getElem?_sampleAll {s : Spans α} (hclosed : s.byLength[length]? = some none)
    (hne : samples ≠ []) : ∃ latest, IsGreatest (startsOf length samples) latest ∧
      (s.sampleAll samples).byLength[length]? =
        some (some ⟨latest, merged length latest samples⟩) := by
  induction samples using List.reverseRecOn with
  | nil => exact absurd rfl hne
  | append_singleton samples x ih =>
    rw [sampleAll_concat, getElem?_sample, startsOf_concat]
    rcases eq_or_ne samples [] with rfl | hsome
    · -- the first bucket opens its span
      refine ⟨bucketAt x.1 length, ?_, ?_⟩
      · simp [startsOf]
      · show Option.map _ s.byLength[length]? = _
        rw [hclosed, Option.map_some, sampled_none, merged_concat, if_pos rfl]
        rfl
    · obtain ⟨latest, hlatest, hspan⟩ := ih hsome
      refine ⟨max (bucketAt x.1 length) latest, hlatest.insert _, ?_⟩
      rw [hspan, Option.map_some, sampled_merged hlatest]

/-- after samples in any order, of each length that there is the latest span is found, for each of
its times, with the buckets that fall into it merged in turn; nothing else is found -/
theorem get?_sampleAll (lengths : List Int) (hne : samples ≠ []) :
    (∀ length ∈ lengths, ∃ latest,
      IsGreatest {start | ∃ x ∈ samples, bucketAt x.1 length = start} latest ∧
      ∀ time, ((new lengths).sampleAll samples).get? length time =
        if bucketAt time length = latest then
          some (((samples.filter fun x => bucketAt x.1 length = latest).map Prod.snd).foldl merge ∅)
        else none) ∧
    ∀ length ∉ lengths, ∀ time, ((new lengths).sampleAll samples).get? length time = none := by
  constructor
  · intro length hlength
    have hclosed : (new lengths : Spans α).byLength[length]? = some none := by
      rw [getElem?_new, if_pos hlength]
    obtain ⟨latest, hlatest, hspan⟩ := getElem?_sampleAll hclosed hne
    refine ⟨latest, hlatest, fun time => ?_⟩
    unfold get?
    rw [hspan]
    simp only [eq_comm (a := latest)]
    rfl
  · intro length hlength time
    have hno : (new lengths : Spans α).byLength[length]? = none := by
      rw [getElem?_new, if_neg hlength]
    unfold get?
    rw [getElem?_sampleAll_of_none hno]

/-- a bucket of an earlier span comes between two of the latest one, but falls into the same span of
the longer length -/
theorem get?_sampleAll_out_of_order :
    let counted (n : Nat) : Aggregates := (∅ : Aggregates).countPair ⟨7, 2⟩ n
    let samples := [(-10, counted 1), (130, counted 2), (60, counted 4), (190, counted 8)]
    let s := (new [120, 600]).sampleAll samples
    s.get? 120 239 = some (merge (merge ∅ (counted 2)) (counted 8)) ∧
      s.get? 120 60 = none ∧
      s.get? 600 60 = some (merge (merge (merge ∅ (counted 2)) (counted 4)) (counted 8)) ∧
      s.get? 240 130 = none := by
  intro counted samples s
  have hne : samples ≠ [] := by simp [samples]
  obtain ⟨hspans, hno⟩ := get?_sampleAll [120, 600] hne
  -- the bucket at 130 falls into the latest span of both lengths
  have hlast (length : Int) (hle : ∀ x ∈ samples, bucketAt x.1 length ≤ bucketAt 130 length) :
      IsGreatest {start | ∃ x ∈ samples, bucketAt x.1 length = start} (bucketAt 130 length) := by
    refine ⟨⟨(130, counted 2), by simp [samples], rfl⟩, ?_⟩
    rintro start ⟨x, hx, rfl⟩
    exact hle x hx
  obtain ⟨latest, hlatest, hget⟩ := hspans 120 (by decide)
  obtain rfl := hlatest.unique (hlast 120 (by simp [samples, bucketAt]))
  obtain ⟨latest', hlatest', hget'⟩ := hspans 600 (by decide)
  obtain rfl := hlatest'.unique (hlast 600 (by simp [samples, bucketAt]))
  exact ⟨hget 239, hget 60, hget' 60, hno 240 (by decide) 130⟩

end Spans

end EventBuckets
