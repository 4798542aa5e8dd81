import EventBuckets.Proofs.InStep
import EventBuckets.Proofs.Merging

/-!
# What an open span says

A bucket that is sampled is merged into the span it falls into.  If each bucket of a span is sampled
once, while it is retained and when it no longer changes, the span comes to hold what the records of
all its buckets come to.

* `Spans.Tells`          the open span of a length tells the records of the buckets passed to it;
* `Gatherer.SpanTells`   the open spans of both windows do;
* `SpanTells.sample`     sampling passes one more bucket;
* `Gatherer.Completes`   a run samples each bucket of a span once, in time and not too early;
* `SpanTells.run`        at any point of such a run the span tells the records of those passed;
* `exists_span`          after it the span tells the records of all of its buckets.
-/

set_option linter.unusedSectionVars false

namespace EventBuckets

/-- buckets nest: the longer bucket of a time is that of the start of the shorter one -/
theorem bucketAt_bucketAt_of_dvd {l s : Int} (hl : 0 < l) (hs : 0 < s) (hd : l ∣ s) (t : Int) :
    bucketAt (bucketAt t l) s = bucketAt t s := by
  have hle : bucketAt t s ≤ bucketAt t l :=
    le_bucketAt hl (hd.trans (dvd_bucketAt t s)) (bucketAt_le t hs)
  have hlt : bucketAt t l < bucketAt t s + s :=
    (bucketAt_le t hl).trans_lt (lt_bucketAfter t hs)
  exact bucketAt_eq_of_mem (dvd_bucketAt t s) hle hlt

/-! ## open spans -/

namespace Spans
variable {α : Type} [PairData α] {s : Spans α} {length start t : Int}
  {told : α → List Recorded → Prop} {passed : List Int} {rs rs' : List Recorded}

/-- no later span than the one from `start` on is open, and what that one holds tells records; it is
open once a bucket was passed to it -/
structure Tells (s : Spans α) (length start : Int) (told : α → List Recorded → Prop)
    (passed : List Int) (rs : List Recorded) : Prop where
  aligned : length ∣ start
  present : s.hasLength length = true
  start_le : ∀ first, s.start? length = some first → first ≤ start
  isOpen : passed ≠ [] → (s.get? length start).isSome = true
  told : told ((s.get? length start).getD ∅) rs

theorem get?_eq_none_of_start? (h : s.start? length ≠ some (bucketAt t length)) :
    s.get? length t = none := by
  unfold start? at h
  unfold get?
  cases hspan : s.byLength[length]? with
  | none => rfl
  | some span =>
    cases span with
    | none => rfl
    | some current =>
      rw [hspan] at h
      exact if_neg fun e => h (congrArg some e)

theorem tells_new (hm : Merges told) {lengths : List Int} (hl : length ∈ lengths)
    (hs : length ∣ start) : (new lengths : Spans α).Tells length start told [] [] := by
  have hnone := start?_new (α := α) lengths length
  have hget : (new lengths : Spans α).get? length start = none :=
    get?_eq_none_of_start? (by rw [hnone]; nofun)
  refine ⟨hs, (Window.hasLength_new lengths length).mpr hl, ?_, fun h => absurd rfl h, ?_⟩
  · rw [hnone]
    nofun
  · rw [hget]
    exact hm.empty

/-- sampling a bucket merges it into the span it falls into, unless a later one is open -/
theorem get?_sample (hl : s.hasLength length = true)
    (hle : ∀ first, s.start? length = some first → first ≤ bucketAt t length) (bucket : α) :
    (s.sample t bucket).get? length t = some (merge ((s.get? length t).getD ∅) bucket) := by
  unfold hasLength at hl
  rw [Std.ExtTreeMap.contains_eq_isSome_getElem?] at hl
  unfold start? at hle
  unfold get? sample
  rw [Std.ExtTreeMap.getElem?_map]
  cases hspan : s.byLength[length]? with
  | none =>
    rw [hspan] at hl
    cases hl
  | some span =>
    cases span with
    | none => simp [sampled]
    | some current =>
      rw [hspan] at hle
      have hle : current.start ≤ bucketAt t length := hle _ rfl
      by_cases heq : current.start = bucketAt t length
      · simp [sampled, heq]
      · simp [sampled, heq, Int.not_lt.mpr hle]

/-- a bucket of an earlier span changes nothing in a later one -/
theorem get?_sample_of_lt (hs : length ∣ start) (ht : bucketAt t length < start) (bucket : α) :
    (s.sample t bucket).get? length start = s.get? length start := by
  unfold get? sample
  rw [Std.ExtTreeMap.getElem?_map, bucketAt_of_dvd hs]
  cases s.byLength[length]? with
  | none => rfl
  | some span =>
    cases span with
    | none => simp [sampled, ht.ne]
    | some current =>
      by_cases heq : current.start = bucketAt t length
      · simp [sampled, heq, ht.ne]
      · by_cases hlt : bucketAt t length < current.start
        · simp [sampled, heq, hlt]
        · have hne : current.start ≠ start := by omega
          simp [sampled, heq, hlt, ht.ne, hne]

theorem start?_sample_le (h : s.Tells length start told passed rs) (ht : bucketAt t length ≤ start)
    (bucket : α) (first : Int) (hfirst : (s.sample t bucket).start? length = some first) :
    first ≤ start := by
  rw [start?_sample, if_pos h.present] at hfirst
  obtain rfl := Option.some.inj hfirst
  unfold laterStart
  cases hold : s.start? length with
  | none => exact ht
  | some old => exact max_le ht (h.start_le old hold)

theorem hasLength_sample (s : Spans α) (t : Int) (bucket : α) (length : Int) :
    (s.sample t bucket).hasLength length = s.hasLength length := by
  simp [sample, hasLength]

theorem Tells.sample (hm : Merges told) (h : s.Tells length start told passed rs)
    (ht : bucketAt t length = start) {bucket : α} (hb : told bucket rs') (b : Int) :
    (s.sample t bucket).Tells length start told (passed ++ [b]) (rs ++ rs') := by
  subst ht
  have hget : (s.sample t bucket).get? length (bucketAt t length) =
      some (merge ((s.get? length (bucketAt t length)).getD ∅) bucket) := by
    have hsame (s : Spans α) : s.get? length (bucketAt t length) = s.get? length t := by
      unfold get?
      rw [bucketAt_bucketAt]
    rw [hsame, hsame]
    exact get?_sample h.present h.start_le bucket
  refine ⟨h.aligned, ?_, start?_sample_le h le_rfl bucket, fun _ => ?_, ?_⟩
  · rw [hasLength_sample]
    exact h.present
  · rw [hget]
    rfl
  · rw [hget]
    exact hm.merge h.told hb

theorem Tells.sample_of_lt (h : s.Tells length start told passed rs)
    (ht : bucketAt t length < start) (bucket : α) :
    (s.sample t bucket).Tells length start told passed rs := by
  have hget := get?_sample_of_lt (s := s) h.aligned ht bucket
  refine ⟨h.aligned, ?_, start?_sample_le h ht.le bucket, fun hne => ?_, ?_⟩
  · rw [hasLength_sample]
    exact h.present
  · rw [hget]
    exact h.isOpen hne
  · rw [hget]
    exact h.told

end Spans

/-! ## both windows -/

namespace Window
variable {α : Type} [PairData α] {w : Window α} {c : Config} {start span first t lo : Int}
  {told : α → List Recorded → Prop} {passed : List Int} {rs records : List Recorded}

/-- a retained bucket tells its records to the span that it falls into -/
theorem spanTells_sample (hm : Merges told) (hf : w.Fits c start)
    (hr : ∀ lo, w.ring.Tells lo told records) (h : w.spans.Tells span first told passed rs)
    (ht : bucketAt t span = first) (hin : w.ring.contains t = true) (b : Int) :
    (w.sample t).spans.Tells span first told (passed ++ [b])
      (rs ++ recordsAt c.bucketSeconds t records) := by
  obtain ⟨bucket, hbucket, htold⟩ := (hr _).found t hin le_rfl
  rw [hf.ring.length_eq] at htold
  unfold Window.sample
  rw [hbucket]
  exact h.sample hm ht htold b

theorem spanTells_sample_of_lt (h : w.spans.Tells span first told passed rs)
    (ht : bucketAt t span < first) : (w.sample t).spans.Tells span first told passed rs := by
  unfold Window.sample
  split
  · exact h.sample_of_lt ht _
  · exact h

end Window

/-- the spans of distinct texts; a series of measurements has none -/
def Series.textSpans : Series → Spans DistinctTexts
  | .occurrences s => s.window.spans
  | .measured _ => .new []

namespace Series

theorem textSpans_startBucket (s : Series) (t : Int) (x : SampleCounts) :
    ((s.startBucket t false).withSamples x).textSpans = s.textSpans := by
  cases s with
  | occurrences s => rfl
  | measured s => rfl

theorem textSpans_add (s : Series) (t : Int) (p : Pair) (e : Event) :
    (s.add t p e).textSpans = s.textSpans := by
  cases s with
  | occurrences s =>
    unfold Series.add Occurrences.add
    cases e.text with
    | none => rfl
    | some text => rfl
  | measured s => rfl

end Series

namespace Gatherer
variable {g h : Gatherer} {kind : SeriesKind} {c : Config} {span start : Int}
  {passed : List Int} {rs records : List Recorded}

/-- the open spans of both windows tell records -/
structure SpanTells (g : Gatherer) (span start : Int) (passed : List Int) (rs : List Recorded) :
    Prop where
  counts : g.counts.spans.Tells span start Aggregates.Counts passed rs
  texts : g.series.textSpans.Tells span start DistinctTexts.Lists passed rs

theorem spanTells_new {t : Int} (hnew : new .eventRate c t = .ok g)
    (hspan : span ∈ c.spanSeconds) (hstart : span ∣ start) : g.SpanTells span start [] [] := by
  unfold new at hnew
  split at hnew
  · cases hnew
  · obtain rfl := Except.ok.inj hnew
    exact ⟨Spans.tells_new Aggregates.merges_counts hspan hstart,
      Spans.tells_new DistinctTexts.merges_lists hspan hstart⟩

theorem SpanTells.perm (h : g.SpanTells span start passed rs) {rs' : List Recorded}
    (hp : rs.Perm rs') : g.SpanTells span start passed rs' where
  counts := { h.counts with told := Aggregates.merges_counts.perm h.counts.told hp }
  texts := { h.texts with told := DistinctTexts.merges_lists.perm h.texts.told hp }

/-! ### what leaves the spans alone -/

/-- neither window has its spans changed -/
def SameSpans (g h : Gatherer) : Prop :=
  h.counts.spans = g.counts.spans ∧ h.series.textSpans = g.series.textSpans

theorem SpanTells.of_same (h : g.SpanTells span start passed rs) {g' : Gatherer}
    (hsame : g.SameSpans g') : g'.SpanTells span start passed rs :=
  ⟨hsame.1 ▸ h.counts, hsame.2 ▸ h.texts⟩

theorem sameSpans_advance (hs : g.Sound kind c) (t : Int) (counting : Bool) :
    g.SameSpans (g.advance t counting) := by
  obtain ⟨x, -, e⟩ := advance_eq hs t counting
  rw [e]
  exact ⟨rfl, Series.textSpans_startBucket ..⟩

theorem sameSpans_observe (hs : g.Sound kind c) (t : Int) : g.SameSpans (g.observe t) :=
  sameSpans_advance (g := { g with earliest := some (g.earliest.elim t fun e => min e t) })
    ⟨hs.config_eq, hs.valid, hs.counts, hs.series⟩ t true

theorem sameSpans_record (g : Gatherer) (e : Event) (t : Int) (p : Pair) :
    g.SameSpans (g.record e t p) := by
  unfold Gatherer.record
  simp only
  split
  · exact ⟨rfl, rfl⟩
  · split
    · exact ⟨rfl, rfl⟩
    · exact ⟨rfl, g.series.textSpans_add t p e⟩

theorem sameSpans_add (hs : g.Sound kind c) (d : Directory) (e : Event) :
    g.SameSpans (g.add d e).2 := by
  have hadds := adds g d e
  generalize g.add d e = r at hadds
  cases hadds with
  | untimed | refused | late | ignored => exact ⟨rfl, rfl⟩
  | @noted t => exact sameSpans_observe hs t
  | @taken t p =>
    have hobserved := sameSpans_observe (hs.widen p) t
    have hrecord := ((g.widen p).observe t).sameSpans_record e t p
    exact ⟨hrecord.1.trans hobserved.1, hrecord.2.trans hobserved.2⟩

theorem sameSpans_tick (hs : g.Sound kind c) (t : Int) : g.SameSpans (g.tick t).2 := by
  unfold Gatherer.tick
  split
  · exact ⟨rfl, rfl⟩
  · exact sameSpans_advance hs t true

/-! ### sampling -/

/-- sampling moves the clock and then samples the bucket in both windows -/
theorem exists_sample_eq (hs : g.Sound .eventRate c) (t : Int) :
    ∃ o : Occurrences, (g.advance (g.lastCall t) true).series = .occurrences o ∧
      o.window.Fits c (g.advance (g.lastCall t) true).start ∧
      g.sample t = { g.advance (g.lastCall t) true with
        counts := (g.advance (g.lastCall t) true).counts.sample (bucketAt t g.length)
        series := .occurrences ⟨o.window.sample (bucketAt t g.length)⟩ } := by
  have hs' := hs.advance (g.lastCall t) true
  have hlength : (g.advance (g.lastCall t) true).length = g.length :=
    hs'.length_eq.trans hs.length_eq.symm
  obtain ⟨o, ho, window⟩ := hs'.series.exists_occurrences
  refine ⟨o, ho, window, ?_⟩
  unfold Gatherer.sample
  simp only [hlength, ho]
  rfl

/-- sampling a bucket of the span while it is retained passes its records to both windows -/
theorem SpanTells.sample (hs : g.Sound .eventRate c) (htold : ∀ lo, g.Tells .contents lo records)
    (h : g.SpanTells span start passed rs) {t : Int} (ht : bucketAt t span = start)
    (hd : g.length ∣ span) (hspan : 0 < span) (hold : g.oldest ≤ bucketAt t g.length) :
    (g.sample t).SpanTells span start (passed ++ [bucketAt t g.length])
      (rs ++ recordsAt g.length (bucketAt t g.length) records) := by
  have hs' := hs.advance (g.lastCall t) true
  have htold' (lo : Int) := (htold lo).advance Account.lawful_contents hs (g.lastCall t) true
  have h' := h.of_same (sameSpans_advance hs (g.lastCall t) true)
  have hb : bucketAt (bucketAt t g.length) span = start := by
    rw [bucketAt_bucketAt_of_dvd hs.pos hspan hd]
    exact ht
  have hin : (g.advance (g.lastCall t) true).counts.ring.contains (bucketAt t g.length) = true := by
    have hlast : g.lastCall (bucketAt t g.length) = g.lastCall t := by
      unfold lastCall
      rw [bucketAt_bucketAt]
    rw [← hlast]
    exact contains_room hs (dvd_bucketAt t g.length) hold true
  obtain ⟨o, ho, window, hsample⟩ := exists_sample_eq hs t
  have hseries (lo : Int) := (htold' lo).series
  have hspans := h'.texts
  rw [ho] at hseries hspans
  have hin' : o.window.ring.contains (bucketAt t g.length) = true :=
    window.ring.contains_iff.mpr (hs'.counts.ring.contains_iff.mp hin)
  rw [hsample, hs.length_eq]
  rw [hs.length_eq] at hin hin' hb
  exact ⟨Window.spanTells_sample Aggregates.merges_counts hs'.counts
      (fun lo => (htold' lo).counts) h'.counts hb hin _,
    Window.spanTells_sample DistinctTexts.merges_lists window hseries hspans hb hin' _⟩

/-- sampling a bucket of an earlier span leaves the span alone -/
theorem SpanTells.sample_of_lt (hs : g.Sound .eventRate c)
    (h : g.SpanTells span start passed rs) {t : Int} (ht : bucketAt t span < start)
    (hd : g.length ∣ span) (hspan : 0 < span) : (g.sample t).SpanTells span start passed rs := by
  have h' := h.of_same (sameSpans_advance hs (g.lastCall t) true)
  have hb : bucketAt (bucketAt t g.length) span < start := by
    rw [bucketAt_bucketAt_of_dvd hs.pos hspan hd]
    exact ht
  obtain ⟨o, ho, -, hsample⟩ := exists_sample_eq hs t
  have hspans := h'.texts
  rw [ho] at hspans
  rw [hsample]
  exact ⟨Window.spanTells_sample_of_lt h'.counts hb, Window.spanTells_sample_of_lt hspans hb⟩

end Gatherer

/-! ## runs -/

/-- whether an operation samples the bucket that starts at `start` -/
def Op.samples (length start : Int) : Op → Bool
  | .sample t => bucketAt t length = start
  | _ => false

/-- the buckets of the span from `start` on that operations sample, in turn -/
def passedBy (length span start : Int) (ops : List Op) : List Int :=
  ops.filterMap fun
    | .sample t => if bucketAt t span = start then some (bucketAt t length) else none
    | _ => none

/-- the records of some buckets -/
def recordsIn (length : Int) (starts : List Int) (records : List Recorded) : List Recorded :=
  records.filter fun x => bucketAt x.time length ∈ starts

section
variable {length span start b : Int} {ops ops' : List Op} {starts : List Int}
  {records records' : List Recorded}

theorem passedBy_append : passedBy length span start (ops ++ ops') =
    passedBy length span start ops ++ passedBy length span start ops' := List.filterMap_append

theorem mem_passedBy : b ∈ passedBy length span start ops ↔
    ∃ t, Op.sample t ∈ ops ∧ bucketAt t span = start ∧ bucketAt t length = b := by
  unfold passedBy
  rw [List.mem_filterMap]
  constructor
  · rintro ⟨op, hop, hb⟩
    cases op with
    | sample t =>
      simp only [Option.ite_none_right_eq_some, Option.some.injEq] at hb
      exact ⟨t, hop, hb.1, hb.2⟩
    | _ => cases hb
  · rintro ⟨t, hop, ht, hb⟩
    refine ⟨.sample t, hop, ?_⟩
    simp only [ht, hb, if_true]

theorem not_mem_passedBy (h : ops.countP (Op.samples length b) = 0) :
    b ∉ passedBy length span start ops := by
  intro hb
  obtain ⟨t, hop, -, ht⟩ := mem_passedBy.mp hb
  have hnone := List.countP_eq_zero.mp h _ hop
  exact hnone (decide_eq_true ht)

theorem recordsIn_append : recordsIn length starts (records ++ records') =
    recordsIn length starts records ++ recordsIn length starts records' := List.filter_append ..

/-- the records of one bucket more -/
theorem recordsIn_concat (hb : b ∉ starts) (hbucket : bucketAt b length = b) :
    (recordsIn length starts records ++ recordsAt length b records).Perm
      (recordsIn length (starts ++ [b]) records) := by
  let both := recordsIn length (starts ++ [b]) records
  have hold : recordsIn length starts records =
      both.filter fun x => decide (bucketAt x.time length ∈ starts) := by
    show _ = (records.filter _).filter _
    rw [List.filter_filter]
    apply List.filter_congr
    intro x _
    by_cases hx : bucketAt x.time length ∈ starts
    · simp [hx]
    · simp [hx]
  have hnew : recordsAt length b records =
      both.filter fun x => !decide (bucketAt x.time length ∈ starts) := by
    show records.filter _ = (records.filter _).filter _
    rw [List.filter_filter]
    apply List.filter_congr
    intro x _
    rw [hbucket]
    by_cases hx : bucketAt x.time length = b
    · simp [hx, hb]
    · simp [hx]
  rw [hold, hnew]
  exact List.filter_append_perm _ both

end

namespace Gatherer
variable {g : Gatherer} {c : Config} {span start : Int} {ops : List Op}

/-- a run samples each bucket of the span from `start` on once, while it is retained and after its
last record, and samples no bucket of a later span -/
structure Completes (g : Gatherer) (ops : List Op) (span start : Int) : Prop where
  once : ∀ b, g.length ∣ b → bucketAt b span = start → ops.countP (Op.samples g.length b) = 1
  retained : ∀ before t after, ops = before ++ Op.sample t :: after → bucketAt t span = start →
    (g.run before).oldest ≤ bucketAt t g.length
  settled : ∀ before t after, ops = before ++ Op.sample t :: after → bucketAt t span = start →
    ∀ x ∈ ((g.run before).sample t).history after, bucketAt x.time g.length ≠ bucketAt t g.length
  latest : ∀ t, Op.sample t ∈ ops → bucketAt t span ≤ start

/-- a record does not come to a bucket that was passed before -/
theorem Completes.not_passed (h : g.Completes ops span start) {before after : List Op}
    {d : Directory} {e : Event} (hops : ops = before ++ Op.add d e :: after) {x : Recorded}
    (hx : (g.run before).recorded? d e = some x) :
    bucketAt x.time g.length ∉ passedBy g.length span start before := by
  intro hpassed
  obtain ⟨t, ht, hspan, hbucket⟩ := mem_passedBy.mp hpassed
  obtain ⟨first, rest, rfl⟩ := List.append_of_mem ht
  have hsplit : ops = first ++ Op.sample t :: (rest ++ Op.add d e :: after) := by
    rw [hops, List.append_assoc, List.cons_append]
  refine h.settled first t _ hsplit hspan x ?_ hbucket.symm
  rw [history_append]
  apply List.mem_append_right
  apply List.mem_append_left
  rw [run_append] at hx
  exact Option.mem_toList.mpr hx

/-- a bucket is passed to the span of a run, or it belongs to an earlier span -/
theorem SpanTells.run_sample (hs : g.Sound .eventRate c) {before after : List Op} {t : Int}
    (htold : ∀ lo, (g.run before).Tells .contents lo (g.history before))
    (h : (g.run before).SpanTells span start (passedBy g.length span start before)
      (recordsIn g.length (passedBy g.length span start before) (g.history before)))
    (hd : g.length ∣ span) (hspan : 0 < span) (hc : g.Completes ops span start)
    (hsplit : ops = before ++ Op.sample t :: after) :
    let passed := passedBy g.length span start before ++ passedBy g.length span start [Op.sample t]
    ((g.run before).sample t).SpanTells span start passed
      (recordsIn g.length passed (g.history before)) := by
  have hs' := hs.run before
  have hlength : (g.run before).length = g.length := hs'.length_eq.trans hs.length_eq.symm
  have hle : bucketAt t span ≤ start := by
    apply hc.latest
    rw [hsplit]
    exact List.mem_append_right _ List.mem_cons_self
  intro passed
  rcases hle.lt_or_eq with hlt | heq
  · have hpassed : passed = passedBy g.length span start before := by
      simp [passed, passedBy, hlt.ne]
    rw [hpassed]
    exact h.sample_of_lt hs' hlt (hlength ▸ hd) hspan
  · have hpassed : passed = passedBy g.length span start before ++ [bucketAt t g.length] := by
      simp [passed, passedBy, heq]
    have hbucket : bucketAt (bucketAt t g.length) span = start := by
      rw [bucketAt_bucketAt_of_dvd hs.pos hspan hd]
      exact heq
    have hfirst : before.countP (Op.samples g.length (bucketAt t g.length)) = 0 := by
      have hown : Op.samples g.length (bucketAt t g.length) (.sample t) = true :=
        decide_eq_true rfl
      have honce := hc.once _ (dvd_bucketAt t g.length) hbucket
      rw [hsplit, List.countP_append, List.countP_cons_of_pos hown] at honce
      omega
    have hsampled := h.sample hs' htold heq (hlength ▸ hd) hspan
      (hlength ▸ hc.retained before t after hsplit heq)
    rw [hlength] at hsampled
    rw [hpassed]
    exact hsampled.perm (recordsIn_concat (not_mem_passedBy hfirst) (bucketAt_bucketAt t g.length))

/-- at any point of such a run the span tells the records of the buckets that were passed to it -/
theorem SpanTells.run (hs : g.Sound .eventRate c) (htold : ∀ lo, g.Tells .contents lo [])
    (h : g.SpanTells span start [] []) (hd : g.length ∣ span) (hspan : 0 < span)
    (hops : ∀ op ∈ ops, op.isGathering = true) (hc : g.Completes ops span start)
    (before after : List Op) (hsplit : ops = before ++ after) :
    (g.run before).SpanTells span start (passedBy g.length span start before)
      (recordsIn g.length (passedBy g.length span start before) (g.history before)) := by
  induction before using List.reverseRecOn generalizing after with
  | nil => exact h
  | append_singleton before op ih =>
    rw [List.append_assoc, List.singleton_append] at hsplit
    have hbefore := ih (op :: after) hsplit
    have hs' := hs.run before
    rw [run_append, history_append, passedBy_append]
    cases op with
    | add d e =>
      have hnone : recordsIn g.length (passedBy g.length span start before)
          ((g.run before).recorded? d e).toList = [] := by
        apply List.filter_eq_nil_iff.mpr
        intro x hx hin
        exact hc.not_passed hsplit (Option.mem_toList.mp hx) (of_decide_eq_true hin)
      show ((g.run before).add d e).2.SpanTells span start (_ ++ [])
        (recordsIn _ (_ ++ []) (_ ++ (((g.run before).recorded? d e).toList ++ [])))
      rw [List.append_nil, List.append_nil, recordsIn_append, hnone, List.append_nil]
      exact hbefore.of_same (sameSpans_add hs' d e)
    | tick t =>
      show ((g.run before).tick t).2.SpanTells span start (_ ++ [])
        (recordsIn _ (_ ++ []) (_ ++ []))
      rw [List.append_nil, List.append_nil]
      exact hbefore.of_same (sameSpans_tick hs' t)
    | skip t =>
      show ((g.run before).skip t).SpanTells span start (_ ++ []) (recordsIn _ (_ ++ []) (_ ++ []))
      rw [List.append_nil, List.append_nil]
      exact hbefore.of_same (sameSpans_advance hs' _ false)
    | sample t =>
      have htold' (lo : Int) : (g.run before).Tells .contents lo (g.history before) := by
        have hgathering : ∀ op ∈ before, op.isGathering = true := by
          intro op hop
          apply hops
          rw [hsplit]
          exact List.mem_append_left _ hop
        have hrun := (htold lo).run Account.lawful_contents hs hgathering
        rwa [List.nil_append] at hrun
      show ((g.run before).sample t).SpanTells span start _ (recordsIn _ _ (_ ++ []))
      rw [List.append_nil]
      exact hbefore.run_sample hs htold' hd hspan hc hsplit
    | _ =>
      have hop : _ = true := hops _ (by
        rw [hsplit]
        exact List.mem_append_right _ List.mem_cons_self)
      cases hop

/-- each bucket of the span is passed to it -/
theorem Completes.mem_passedBy (h : g.Completes ops span start) (hl : 0 < g.length)
    (hspan : 0 < span) (hd : g.length ∣ span) {b : Int} (hb : g.length ∣ b)
    (hstart : bucketAt b span = start) : b ∈ passedBy g.length span start ops := by
  have honce := h.once b hb hstart
  obtain ⟨op, hop, hsamples⟩ := List.countP_pos_iff.mp (Nat.lt_of_lt_of_eq Nat.one_pos honce.symm)
  cases op with
  | sample t =>
    have ht : bucketAt t g.length = b := of_decide_eq_true hsamples
    refine EventBuckets.mem_passedBy.mpr ⟨t, hop, ?_, ht⟩
    rw [← bucketAt_bucketAt_of_dvd hl hspan hd, ht]
    exact hstart
  | _ => cases hsamples

/-- once all buckets of a span were passed to it, their records are those of the span -/
theorem Completes.recordsIn_eq (h : g.Completes ops span start) (hl : 0 < g.length)
    (hspan : 0 < span) (hd : g.length ∣ span) (hstart : span ∣ start) (records : List Recorded) :
    recordsIn g.length (passedBy g.length span start ops) records =
      recordsAt span start records := by
  apply List.filter_congr
  intro x _
  rw [bucketAt_of_dvd hstart, decide_eq_decide]
  constructor
  · intro hx
    obtain ⟨t, -, ht, hbucket⟩ := EventBuckets.mem_passedBy.mp hx
    rw [← bucketAt_bucketAt_of_dvd hl hspan hd, ← hbucket, bucketAt_bucketAt_of_dvd hl hspan hd]
    exact ht
  · intro hx
    apply h.mem_passedBy hl hspan hd (dvd_bucketAt x.time g.length)
    rw [bucketAt_bucketAt_of_dvd hl hspan hd]
    exact hx

/-- after such a run the span holds what its records come to, in both windows -/
theorem Completes.exists_span (hs : g.Sound .eventRate c) (htold : ∀ lo, g.Tells .contents lo [])
    (h : g.SpanTells span start [] []) (hd : g.length ∣ span) (hspan : 0 < span)
    (hstart : span ∣ start) (hops : ∀ op ∈ ops, op.isGathering = true)
    (hc : g.Completes ops span start) :
    (∃ a, (g.run ops).counts.spans.get? span start = some a ∧
      a.Counts (recordsAt span start (g.history ops))) ∧
    ∃ d, (g.run ops).series.textSpans.get? span start = some d ∧
      d.Lists (recordsAt span start (g.history ops)) := by
  have htells := h.run hs htold hd hspan hops hc ops [] (List.append_nil ops).symm
  rw [hc.recordsIn_eq hs.pos hspan hd hstart] at htells
  have hpassed : passedBy g.length span start ops ≠ [] :=
    List.ne_nil_of_mem <|
      hc.mem_passedBy hs.pos hspan hd (hd.trans hstart) (bucketAt_of_dvd hstart)
  obtain ⟨a, ha⟩ := Option.isSome_iff_exists.mp (htells.counts.isOpen hpassed)
  obtain ⟨d, hopen⟩ := Option.isSome_iff_exists.mp (htells.texts.isOpen hpassed)
  have hcounts := htells.counts.told
  have htexts := htells.texts.told
  rw [ha] at hcounts
  rw [hopen] at htexts
  exact ⟨⟨a, ha, hcounts⟩, d, hopen, htexts⟩

end Gatherer

end EventBuckets
