import EventBuckets.Checksum.Folded
import EventBuckets.Proofs.RoundTrip
import EventBuckets.Proofs.Runs

/-!
# Gatherers written and read back

* `Ring.widened`            the buckets of a ring, with room for a latency;
* `Config.Accommodates`     a configuration has room for what another one has gathered;
* `Ring.gives_ofNodes_nodes`, `Spans.gives_ofNodes_nodes`, `Window.gives_ofLevels`
                            rings, spans and windows read back, as wide as the configuration says;
* `Series.gives_ofNodes`    series read back, with their sample counts;
* `Gatherer.Writable`       all numbers of a gatherer fit their words, and no float is no number;
* `Gatherer.restore_document`
                            what is read from the document of a gatherer has the same checksum and
                            the same document, and no operations tell the two apart.
-/

set_option linter.unusedSectionVars false

namespace EventBuckets

/-! ## rings -/

namespace Ring
variable {α : Type} {r r' : Ring α} {length start : Int} {latency latency' : Nat}

/-- where an entry stands, and that it is the bucket found there -/
theorem Covers.of_mem_entries (h : r.Covers length latency start) {e : Int × α}
    (he : e ∈ r.entries) :
    r.get? e.1 = some e.2 ∧ bucketAt e.1 length = e.1 ∧ r.oldest ≤ e.1 ∧ e.1 ≤ r.newest := by
  rw [entries_eq h.sound, List.mem_filterMap] at he
  obtain ⟨s, hs, he⟩ := he
  obtain ⟨x, hx, rfl⟩ := Option.map_eq_some_iff.mp he
  obtain ⟨k, -, rfl⟩ := List.mem_map.mp hs
  have hdvd : length ∣ r.oldest + k * r.length := by
    rw [h.oldest_eq, h.length_eq]
    exact Int.dvd_add (Int.dvd_sub h.aligned (Int.dvd_mul_left _ _)) (Int.dvd_mul_left _ _)
  have hc : r.contains (r.oldest + k * r.length) = true := by
    rw [← isSome_get? h.sound, hx]
    rfl
  rw [Ring.contains_iff, h.length_eq, bucketAt_of_dvd (h.length_eq ▸ hdvd)] at hc
  exact ⟨hx, bucketAt_of_dvd hdvd, h.length_eq ▸ hc⟩

/-- each bucket of the window is an entry -/
theorem Covers.exists_entry (h : r.Covers length latency start) {t : Int}
    (ht : r.contains t = true) : ∃ e ∈ r.entries, e.1 = bucketAt t length := by
  obtain ⟨n, hn, ho⟩ := h.sound.exists_newest
  obtain ⟨b, hb⟩ := dvd_bucketAt t r.length
  have hw := ht
  rw [Ring.contains_iff, hb, ho, hn, mul_le_mul_iff_right₀ h.sound.pos,
    mul_le_mul_iff_right₀ h.sound.pos] at hw
  obtain ⟨x, hx⟩ := Ring.exists_get? h.sound ht
  have hplace : r.oldest + (b - (n - (r.capacity - 1))).toNat * r.length = bucketAt t r.length := by
    rw [hb, ho, Int.toNat_of_nonneg (by omega)]
    ring
  refine ⟨(bucketAt t r.length, x), ?_, by rw [h.length_eq]⟩
  rw [entries_eq h.sound, List.mem_filterMap]
  refine ⟨bucketAt t r.length, ?_, by rw [get?_bucketAt, hx]; rfl⟩
  exact List.mem_map.mpr ⟨(b - (n - (r.capacity - 1))).toNat, List.mem_range.mpr (by omega), hplace⟩

/-- a ring with the buckets of entries put into it -/
def placed (r : Ring α) (es : List (Int × α)) : Ring α :=
  es.foldl (fun r e => r.modify e.1 fun _ => e.2) r

theorem Covers.placed (h : r.Covers length latency start) (es : List (Int × α)) :
    (r.placed es).Covers length latency start := by
  induction es generalizing r with
  | nil => exact h
  | cons e es ih => exact ih (h.modify e.1 _)

/-- a wider window has the buckets of a narrower one -/
theorem Covers.contains_of_le (h : r.Covers length latency start)
    (h' : r'.Covers length latency' start) (hle : latency ≤ latency') {t : Int}
    (ht : r.contains t = true) : r'.contains t = true := by
  obtain ⟨hlo, hhi⟩ := h.contains_iff.mp ht
  apply h'.contains_iff.mpr
  have hroom : (latency : Int) * length ≤ latency' * length :=
    mul_le_mul_of_nonneg_right (by exact_mod_cast hle) h.pos.le
  exact ⟨by omega, hhi⟩

/-- a bucket agrees with a ring once its entry is placed -/
theorem get?_placed (h : r.Covers length latency start) (h' : r'.Covers length latency' start)
    (hle : latency ≤ latency') {es : List (Int × α)}
    (hes : ∀ e ∈ es, r.get? e.1 = some e.2 ∧ bucketAt e.1 length = e.1) {t : Int} (ht : r.contains t = true)
    (hagree : (∃ e ∈ es, e.1 = bucketAt t length) ∨ r'.get? t = r.get? t) :
    (r'.placed es).get? t = r.get? t := by
  -- a bucket that has been placed agrees, and no later entry spoils it
  induction es generalizing r' with
  | nil =>
    obtain ⟨e, he, -⟩ | hagree := hagree
    · cases he
    · exact hagree
  | cons e es ih =>
    obtain ⟨hget, halign⟩ := hes e List.mem_cons_self
    apply ih (h'.modify e.1 _) (fun x hx => hes x (List.mem_cons_of_mem _ hx))
    rw [get?_modify h'.sound, h'.length_eq, halign]
    by_cases hplace : bucketAt t length = e.1
    · right
      obtain ⟨x, hx⟩ := Ring.exists_get? h'.sound (h.contains_of_le h' hle ht)
      rw [if_pos hplace, hx, ← get?_bucketAt r t, h.length_eq, hplace, hget]
      rfl
    · rw [if_neg hplace]
      obtain ⟨x, hx, hxt⟩ | hagree := hagree
      · rcases List.mem_cons.mp hx with rfl | hx
        · exact absurd hxt.symm hplace
        · exact .inl ⟨x, hx, hxt⟩
      · exact .inr hagree

section
variable [EmptyCollection α]

/-- the buckets of a ring, with room for `latency` buckets before the newest one -/
def widened (latency : Nat) (r : Ring α) : Ring α :=
  (new latency r.length r.newest).placed r.entries

theorem Covers.new_newest (h : r.Covers length latency start) (latency' : Nat) :
    (Ring.new latency' r.length r.newest : Ring α).Covers length latency' start := by
  have hnew : (Ring.new latency' length start : Ring α).Covers length latency' _ :=
    Covers.new h.pos start
  rw [bucketAt_of_dvd h.aligned] at hnew
  rw [h.length_eq, h.newest_eq]
  exact hnew

theorem Covers.widened (h : r.Covers length latency start) (latency' : Nat) :
    (r.widened latency').Covers length latency' start :=
  (h.new_newest latency').placed r.entries

/-- a bucket is found again in a wider window -/
theorem get?_widened (h : r.Covers length latency start) (hle : latency ≤ latency') {t : Int}
    (ht : r.contains t = true) : (r.widened latency').get? t = r.get? t := by
  refine get?_placed h (h.new_newest latency') hle (fun e he => ?_) ht (.inl (h.exists_entry ht))
  obtain ⟨hget, halign, -⟩ := h.of_mem_entries he
  exact ⟨hget, halign⟩

theorem widened_self (h : r.Covers length latency start) : r.widened latency = r := by
  apply (h.widened latency).ext h
  intro t ht
  exact get?_widened h le_rfl (h.contains_iff.mpr ((h.widened latency).contains_iff.mp ht))

end

variable [PairData α] [ReadsBack α]

/-- the window lies in the range of times, and all buckets are writable -/
structure Writable (r : Ring α) : Prop where
  oldest : IsTime r.oldest
  newest : IsTime r.newest
  buckets : ∀ e ∈ r.entries, writable e.2

instance (r : Ring α) : Decidable r.Writable :=
  decidable_of_iff (IsTime r.oldest ∧ IsTime r.newest ∧ ∀ e ∈ r.entries, writable e.2)
    ⟨fun ⟨oldest, newest, buckets⟩ => ⟨oldest, newest, buckets⟩,
      fun ⟨oldest, newest, buckets⟩ => ⟨oldest, newest, buckets⟩⟩

theorem gives_readBucket {time : Int} (ht : IsTime time) {item : α} (hw : writable item)
    (hc : r.contains time = true) :
    Restore.Gives (r.readBucket (Tag.time.int time :: persist item))
      (r.modify time fun _ => item) := by
  unfold readBucket
  simp only [tag?_int, Restore.ok_bind, time_int _ _ ht]
  rw [if_neg (by decide)]
  apply (gives_restore hw).bind
  rw [if_pos hc]
  exact Restore.gives_pure _

/-- what reads the buckets has a ring at hand -/
theorem gives_readNode_bucket {time : Int} (ht : IsTime time) {item : α} (hw : writable item)
    (hc : r.contains time = true) :
    Restore.Gives (readNode latency length (some r)
      (Tag.bucket.level (Tag.time.int time :: persist item)))
      (some (r.modify time fun _ => item)) := by
  unfold readNode
  simp only [tag?_level, Restore.ok_bind, children_level, required]
  exact (gives_readBucket ht hw hc).bind (Restore.gives_pure _)

/-- a ring is read into any room that its buckets fit -/
theorem gives_ofNodes_nodes (h : r.Covers length latency start) (hw : r.Writable)
    (hle : latency ≤ latency') :
    Restore.Gives (ofNodes latency' length r.nodes) (r.widened latency') := by
  have hread := Restore.gives_foldlM_map
    (fun e => Tag.bucket.level (Tag.time.int e.1 :: persist e.2))
    (readNode latency' length) (fun o e => o.map fun r' => r'.modify e.1 fun _ => e.2) r.entries
    (fun o => ∃ r' : Ring α, o = some r' ∧ r'.Covers length latency' start)
    ⟨_, rfl, h.new_newest latency'⟩ fun o e he ho => by
      obtain ⟨r', rfl, h'⟩ := ho
      obtain ⟨hget, halign, hlo, hhi⟩ := h.of_mem_entries he
      have htime : IsTime e.1 := ⟨hw.oldest.1.trans hlo, lt_of_le_of_lt hhi hw.newest.2⟩
      have hc : r'.contains e.1 = true := by
        apply h.contains_of_le h' hle
        rw [← isSome_get? h.sound, hget]
        rfl
      exact ⟨gives_readNode_bucket htime (hw.buckets e he) hc, _, rfl, h'.modify e.1 _⟩
  have hplaced : r.entries.foldl (fun o e => o.map fun r' => r'.modify e.1 fun _ => e.2)
      (some (new latency' r.length r.newest : Ring α)) = some (r.widened latency') :=
    List.foldl_hom some fun _ _ => rfl
  rw [hplaced] at hread
  have hfirst : Restore.Gives (readNode latency' length none (Tag.latestStart.int r.newest))
      (some (new latency' r.length r.newest : Ring α)) := by
    unfold readNode
    simp only [tag?_int, Restore.ok_bind, time_int _ _ hw.newest]
    rw [h.length_eq]
    exact Restore.gives_pure _
  unfold ofNodes nodes
  rw [List.foldlM_cons]
  apply (hfirst.bind hread).bind
  exact Restore.gives_pure _

end Ring

/-! ## spans -/

theorem isTime_seconds (d : Duration) : IsTime d.seconds :=
  ⟨Int64.le_toInt _, Int64.toInt_lt _⟩

namespace Spans
variable {α : Type} {s : Spans α}

/-- spans with one of them put in, and the lengths seen so far -/
def taken (state : Spans α × Std.ExtTreeSet Int compare) (e : Int × Option (OpenSpan α)) :
    Spans α × Std.ExtTreeSet Int compare :=
  (⟨state.1.byLength.insert e.1 e.2⟩, state.2.insert e.1)

theorem foldl_taken (es : List (Int × Option (OpenSpan α))) (s : Spans α)
    (seen : Std.ExtTreeSet Int compare) :
    es.foldl taken (s, seen) =
      (⟨es.foldl (fun m e => m.insert e.1 e.2) s.byLength⟩,
        (es.map Prod.fst).foldl (fun m length => m.insert length) seen) := by
  induction es generalizing s seen with
  | nil => rfl
  | cons e es ih => exact ih _ _

variable [PairData α] [ReadsBack α]

/-- all lengths and starts fit a time, and all contents are writable -/
def Writable (s : Spans α) : Prop :=
  ∀ e ∈ s.byLength.toList, IsTime e.1 ∧ ∀ o ∈ e.2, IsTime o.start ∧ writable o.contents

instance (s : Spans α) : Decidable s.Writable :=
  inferInstanceAs (Decidable (∀ e ∈ s.byLength.toList, _))

/-- a length is read once, with its open span if there is one -/
theorem gives_readSpan {seen : Std.ExtTreeSet Int compare} {length : Int}
    {span : Option (OpenSpan α)} (hl : IsTime length)
    (hspan : ∀ o ∈ span, IsTime o.start ∧ writable o.contents) (hs : s.hasLength length = true)
    (hseen : seen.contains length = false) :
    Restore.Gives (readSpan (s, seen) (Tag.span.level (spanNodes length span)))
      (taken (s, seen) (length, span)) := by
  have hlength (f : Fields α) :
      readField f (Tag.span.int length) = pure { f with length := some length } := by
    simp only [readField, tag?_int, Restore.ok_bind, time_int _ _ hl]
  have hfields : Restore.Gives ((spanNodes length span).foldlM readField ⟨none, none, none⟩)
      (⟨some length, span.map OpenSpan.start, span.map OpenSpan.contents⟩ : Fields α) := by
    unfold spanNodes
    rw [List.foldlM_cons, hlength, pure_bind]
    cases span with
    | none => exact Restore.gives_pure _
    | some o =>
      obtain ⟨hstart, hcontents⟩ := hspan o rfl
      have hstart (f : Fields α) :
          readField f (Tag.spanStart.int o.start) = pure { f with start := some o.start } := by
        simp only [readField, tag?_int, Restore.ok_bind, time_int _ _ hstart]
      have hcontents (f : Fields α) : Restore.Gives
          (readField f (Tag.bucket.level (persist o.contents)))
          { f with contents := some o.contents } := by
        simp only [readField, tag?_level, Restore.ok_bind, children_level]
        exact (gives_restore hcontents).bind (Restore.gives_pure _)
      rw [List.foldlM_cons, hstart, pure_bind, List.foldlM_cons]
      exact (hcontents _).bind (Restore.gives_pure _)
  unfold readSpan
  simp only [tag?_level, Restore.ok_bind, children_level]
  rw [if_neg (by decide)]
  apply hfields.bind
  simp only [required, Restore.ok_bind, hs, hseen]
  cases span with
  | none => exact Restore.gives_pure _
  | some o => exact Restore.gives_pure _

theorem gives_readSpans (s : Spans α) (seen : Std.ExtTreeSet Int compare)
    (es : List (Int × Option (OpenSpan α)))
    (hes : ∀ e ∈ es, IsTime e.1 ∧ (∀ o ∈ e.2, IsTime o.start ∧ writable o.contents) ∧
      s.hasLength e.1 = true ∧ seen.contains e.1 = false)
    (hdistinct : es.Pairwise fun a b => ¬compare a.1 b.1 = .eq) :
    Restore.Gives ((es.map fun (length, span) => Tag.span.level (spanNodes length span)).foldlM
      readSpan (s, seen)) (es.foldl taken (s, seen)) := by
  induction es generalizing s seen with
  | nil => exact Restore.gives_pure _
  | cons e es ih =>
    obtain ⟨hl, hspan, hs, hseen⟩ := hes e List.mem_cons_self
    obtain ⟨hfirst, hrest⟩ := List.pairwise_cons.mp hdistinct
    rw [List.map_cons, List.foldlM_cons]
    refine (gives_readSpan hl hspan hs hseen).bind (ih _ _ (fun x hx => ?_) hrest)
    obtain ⟨hl', hspan', hs', hseen'⟩ := hes x (List.mem_cons_of_mem _ hx)
    refine ⟨hl', hspan', ?_, ?_⟩
    · show (s.byLength.insert e.1 e.2).contains x.1 = true
      rw [Std.ExtTreeMap.contains_insert, show s.byLength.contains x.1 = true from hs',
        Bool.or_true]
    · show (seen.insert e.1).contains x.1 = false
      rw [Std.ExtTreeSet.contains_insert, hseen', Bool.or_false]
      simpa using hfirst x hx

theorem gives_ofNodes_nodes {lengths : List Int}
    (h : ∀ length, s.hasLength length = true ↔ length ∈ lengths) (hw : s.Writable) :
    Restore.Gives (ofNodes lengths s.nodes) s := by
  have hnew (length : Int) (hl : s.hasLength length = true) :
      (new lengths : Spans α).hasLength length = true :=
    (Window.hasLength_new lengths length).mpr ((h length).mp hl)
  have hread := gives_readSpans (new lengths) ∅ s.byLength.toList
    (fun e he => by
      have hget := Std.ExtTreeMap.mem_toList_iff_getElem?_eq_some.mp he
      have hs : s.hasLength e.1 = true := by
        unfold hasLength
        rw [Std.ExtTreeMap.contains_eq_isSome_getElem?, hget]
        rfl
      obtain ⟨hl, hspan⟩ := hw e he
      exact ⟨hl, hspan, hnew _ hs, by simp⟩)
    s.byLength.distinct_keys_toList
  have hbase (length : Int)
      (hl : (new lengths : Spans α).byLength.contains length = true) :
      s.byLength.contains length = true :=
    (h length).mpr ((Window.hasLength_new lengths length).mp hl)
  rw [foldl_taken, rebuild _ hbase] at hread
  unfold ofNodes
  apply hread.bind
  have hall : (s.lengths.any fun length => !((s.byLength.toList.map Prod.fst).foldl
      (fun m length => m.insert length) (∅ : Std.ExtTreeSet Int compare)).contains length) =
      false := by
    apply List.any_eq_false.mpr
    intro length hl
    have hmem := (mem_foldl_insert (s.byLength.toList.map Prod.fst) ∅ length).mpr
      (.inl (by rwa [Std.ExtTreeMap.map_fst_toList_eq_keys]))
    rw [Std.ExtTreeSet.mem_iff_contains.mp hmem]
    exact Bool.false_ne_true
  simp only [hall]
  exact Restore.gives_pure _

end Spans

/-! ## windows and series -/

/-- a configuration has room for what another one has gathered: its buckets are as long, its spans
are the same ones, and its latency is as long at least -/
structure Config.Accommodates (c' c : Config) : Prop where
  bucketLength_eq : c'.bucketLength = c.bucketLength
  mem_multiBucketLengths : ∀ d, d ∈ c'.multiBucketLengths ↔ d ∈ c.multiBucketLengths
  latencyBuckets_le : c.latencyBuckets ≤ c'.latencyBuckets

namespace Config.Accommodates
variable {c c' : Config}

theorem refl (c : Config) : c.Accommodates c := ⟨rfl, fun _ => Iff.rfl, le_rfl⟩

theorem bucketSeconds_eq (h : c'.Accommodates c) : c'.bucketSeconds = c.bucketSeconds :=
  congrArg Duration.seconds h.bucketLength_eq

theorem mem_spanSeconds (h : c'.Accommodates c) (length : Int) :
    length ∈ c'.spanSeconds ↔ length ∈ c.spanSeconds := by
  unfold spanSeconds
  rw [List.mem_map, List.mem_map]
  simp only [h.mem_multiBucketLengths]

end Config.Accommodates

namespace Window
variable {α : Type} [PairData α] [ReadsBack α] {w : Window α} {c c' : Config} {start : Int}

structure Writable (w : Window α) : Prop where
  ring : w.ring.Writable
  spans : w.spans.Writable

instance (w : Window α) : Decidable w.Writable :=
  decidable_of_iff (w.ring.Writable ∧ w.spans.Writable)
    ⟨fun ⟨ring, spans⟩ => ⟨ring, spans⟩, fun ⟨ring, spans⟩ => ⟨ring, spans⟩⟩

/-- a window with room for `latency` single buckets before the newest one -/
def widened (latency : Nat) (w : Window α) : Window α := { w with ring := w.ring.widened latency }

theorem widened_self (h : w.Fits c start) : w.widened c.latencyBuckets = w := by
  unfold widened
  rw [Ring.widened_self h.ring]

theorem gives_ofLevels (h : w.Fits c start) (hw : w.Writable) (hc : c'.Accommodates c) :
    Restore.Gives (ofLevels c' ⟨some w.ring.nodes, some w.spans.nodes⟩)
      (w.widened c'.latencyBuckets) := by
  have hspans (length : Int) : w.spans.hasLength length = true ↔ length ∈ c'.spanSeconds :=
    (h.spans length).trans (hc.mem_spanSeconds length).symm
  unfold ofLevels
  simp only [required, Restore.ok_bind]
  rw [hc.bucketSeconds_eq]
  apply (Ring.gives_ofNodes_nodes h.ring hw.ring hc.latencyBuckets_le).bind
  exact (Spans.gives_ofNodes_nodes hspans hw.spans).bind (Restore.gives_pure _)

end Window

theorem Occurrences.readLevels_nodes (s : Occurrences) :
    readLevels s.window.nodes = .ok ⟨some s.window.ring.nodes, some s.window.spans.nodes⟩ := by
  simp only [readLevels, Window.nodes, List.foldlM_cons, List.foldlM_nil, readLevel, tag?_level,
    except_ok_bind, children_level]
  rfl

theorem Measured.readParts_nodes {s : Measured} (hw : s.samples.Writable) (hz : s.samples.Proper) :
    readParts s.nodes =
      .ok ⟨⟨some s.window.ring.nodes, some s.window.spans.nodes⟩, s.samples⟩ := by
  have hring (p : Parts) : readPart p (Tag.bucketQueue.level s.window.ring.nodes) =
      .ok { p with levels := { p.levels with ring := some s.window.ring.nodes } } := by
    simp only [readPart, tag?_level, except_ok_bind, children_level]
    rfl
  have hspans (p : Parts) : readPart p (Tag.multiBucket.level s.window.spans.nodes) =
      .ok { p with levels := { p.levels with spans := some s.window.spans.nodes } } := by
    simp only [readPart, tag?_level, except_ok_bind, children_level]
    rfl
  have hsamples (l : Window.Levels) : readPart ⟨l, .empty⟩ (Tag.sampleCounts.level s.samples.nodes) =
      .ok ⟨l, s.samples⟩ := by
    simp only [readPart, tag?_level, except_ok_bind, children_level,
      SampleCounts.readNodes_nodes hw hz]
    rfl
  simp only [readParts, nodes, Window.nodes, List.cons_append, List.nil_append, List.foldlM_cons,
    List.foldlM_nil, hring, hspans, hsamples, except_ok_bind]
  rfl

namespace Series
variable {s : Series} {c c' : Config} {start : Int} {kind : SeriesKind}

def Writable : Series → Prop
  | occurrences s => s.window.Writable
  | measured s => s.window.Writable ∧ s.samples.Writable

instance (s : Series) : Decidable s.Writable :=
  match s with
  | occurrences s => inferInstanceAs (Decidable s.window.Writable)
  | measured s => inferInstanceAs (Decidable (s.window.Writable ∧ s.samples.Writable))

/-- a series with the latency and the weight of a configuration -/
def refitted (c : Config) : Series → Series
  | occurrences s => occurrences ⟨s.window.widened c.latencyBuckets⟩
  | measured s =>
    measured ⟨s.window.widened c.latencyBuckets, s.samples, c.sampleCountWeight⟩

theorem refitted_self (h : s.Fits c start kind) : s.refitted c = s := by
  cases h with
  | @occurrences s window =>
    show occurrences ⟨s.window.widened c.latencyBuckets⟩ = _
    rw [Window.widened_self window]
  | @measured s window samples weight =>
    show measured ⟨s.window.widened c.latencyBuckets, s.samples, c.sampleCountWeight⟩ = _
    rw [Window.widened_self window, ← weight]

theorem gives_ofNodes (h : s.Fits c start kind) (hw : s.Writable) (hc : c'.Accommodates c) :
    Restore.Gives (ofNodes kind c' s.nodes) (s.refitted c') := by
  cases h with
  | @occurrences s window =>
    show Restore.Gives (Occurrences.ofNodes c' s.window.nodes >>= fun s => pure (occurrences s)) _
    unfold Occurrences.ofNodes
    rw [Occurrences.readLevels_nodes, Restore.ok_bind]
    refine ((Window.gives_ofLevels window hw hc).bind ?_).bind (Restore.gives_pure _)
    exact Restore.gives_pure _
  | @measured s window samples weight =>
    obtain ⟨hwindow, hsamples⟩ := hw
    show Restore.Gives (Measured.ofNodes c' s.nodes >>= fun s => pure (measured s)) _
    unfold Measured.ofNodes
    rw [Measured.readParts_nodes hsamples samples, Restore.ok_bind]
    refine ((Window.gives_ofLevels window hwindow hc).bind ?_).bind (Restore.gives_pure _)
    exact Restore.gives_pure _

end Series

/-! ## gatherers -/

namespace Gatherer
variable {g : Gatherer} {kind : SeriesKind} {c c' : Config}

/-- all times, ids and counts fit their words, and no float is no number -/
structure Writable (g : Gatherer) : Prop where
  start : IsTime g.start
  earliest : ∀ t ∈ g.earliest, IsTime t
  counts : g.counts.Writable
  series : g.series.Writable

instance (g : Gatherer) : Decidable g.Writable :=
  decidable_of_iff (IsTime g.start ∧ (∀ t ∈ g.earliest, IsTime t) ∧ g.counts.Writable ∧
    g.series.Writable)
    ⟨fun ⟨start, earliest, counts, series⟩ => ⟨start, earliest, counts, series⟩,
      fun ⟨start, earliest, counts, series⟩ => ⟨start, earliest, counts, series⟩⟩

theorem body_document (h : g.Sound kind c) :
    Snapshot.body kind g.document = .ok g.snapshot.nodes := by
  have hkind : g.snapshot.kind = kind := h.kind_eq
  unfold Snapshot.body document Snapshot.document
  rw [hkind]
  simp only [tag?_level, except_ok_bind, children_level]
  rw [if_neg (fun hne => hne rfl)]

theorem readParts_nodes (hw : g.Writable) : Snapshot.readParts g.length g.snapshot.nodes =
    .ok ⟨some g.start, g.earliest, ⟨some g.counts.ring.nodes, some g.counts.spans.nodes⟩,
      some g.series.nodes⟩ := by
  have hlength (p : Snapshot.Parts) :
      Snapshot.readPart g.length p (Tag.bucketLength.int g.length) = .ok p := by
    have htime : IsTime g.length := isTime_seconds g.config.bucketLength
    simp only [Snapshot.readPart, tag?_int, except_ok_bind, time_int _ _ htime]
    rw [if_pos trivial]
    rfl
  have hstart (p : Snapshot.Parts) : Snapshot.readPart g.length p (Tag.bucketStart.int g.start) =
      .ok { p with start := some g.start } := by
    simp only [Snapshot.readPart, tag?_int, except_ok_bind, time_int _ _ hw.start]
    rfl
  have hearliest (t : Int) (ht : IsTime t) (p : Snapshot.Parts) :
      Snapshot.readPart g.length p (Tag.earliestTime.int t) =
        .ok { p with earliest := some t } := by
    simp only [Snapshot.readPart, tag?_int, except_ok_bind, time_int _ _ ht]
    rfl
  have hring (p : Snapshot.Parts) :
      Snapshot.readPart g.length p (Tag.bucketQueue.level g.counts.ring.nodes) =
        .ok { p with levels := { p.levels with ring := some g.counts.ring.nodes } } := by
    simp only [Snapshot.readPart, tag?_level, except_ok_bind, children_level]
    rfl
  have hspans (p : Snapshot.Parts) :
      Snapshot.readPart g.length p (Tag.multiBucket.level g.counts.spans.nodes) =
        .ok { p with levels := { p.levels with spans := some g.counts.spans.nodes } } := by
    simp only [Snapshot.readPart, tag?_level, except_ok_bind, children_level]
    rfl
  have hseries (p : Snapshot.Parts) :
      Snapshot.readPart g.length p (Tag.series.level g.series.nodes) =
        .ok { p with series := some g.series.nodes } := by
    simp only [Snapshot.readPart, tag?_level, except_ok_bind, children_level]
    rfl
  unfold Snapshot.readParts Snapshot.nodes snapshot Window.nodes
  cases he : g.earliest with
  | none =>
    simp only [Option.toList_none, List.map_nil, List.cons_append, List.nil_append,
      List.foldlM_cons, List.foldlM_nil, hlength, hstart, hring, hspans, hseries, except_ok_bind]
    rfl
  | some t =>
    simp only [Option.toList_some, List.map_cons, List.map_nil, List.cons_append, List.nil_append,
      List.foldlM_cons, List.foldlM_nil, hlength, hstart, hearliest t (hw.earliest t he), hring,
      hspans, hseries, except_ok_bind]
    rfl

theorem gives_ofDocument (h : g.Sound kind c) (hw : g.Writable) (hc : c'.Accommodates c) :
    Restore.Gives (Snapshot.ofDocument kind c' g.document)
      ⟨g.length, g.start, g.earliest, g.counts.widened c'.latencyBuckets,
        g.series.refitted c'⟩ := by
  unfold Snapshot.ofDocument
  rw [body_document h, Restore.ok_bind, hc.bucketSeconds_eq, ← h.length_eq, readParts_nodes hw,
    Restore.ok_bind]
  simp only [required, Restore.ok_bind]
  apply (Window.gives_ofLevels h.counts hw.counts hc).bind
  exact (Series.gives_ofNodes h.series hw.series hc).bind (Restore.gives_pure _)

/-- a valid configuration that has room for a gatherer restores it, with its buckets as they are -/
theorem exists_restore_of_accommodates (h : g.Sound kind c) (hw : g.Writable)
    (hv : c'.fault? kind = none) (hc : c'.Accommodates c) :
    ∃ pool, restore kind c' g.document = .ok (ofSnapshot c' ⟨g.length, g.start, g.earliest,
      g.counts.widened c'.latencyBuckets, g.series.refitted c'⟩ pool) := by
  obtain ⟨pool, hpool⟩ := gives_ofDocument h hw hc .empty
  refine ⟨pool, ?_⟩
  unfold restore
  rw [hv]
  simp only [hpool]

/-- a sound gatherer is restored alike -/
theorem exists_restore (h : g.Sound kind c) (hw : g.Writable) :
    ∃ g', restore kind c g.document = .ok g' ∧ Alike g g' := by
  obtain ⟨pool, hpool⟩ := exists_restore_of_accommodates h hw h.valid (.refl c)
  rw [Window.widened_self h.counts, Series.refitted_self h.series] at hpool
  refine ⟨_, hpool, alike_of_snapshot h.config_eq ?_⟩
  have hlength : (ofSnapshot c g.snapshot pool).length = g.length := h.length_eq.symm
  show g.snapshot = ⟨(ofSnapshot c g.snapshot pool).length, g.start, g.earliest, g.counts, g.series⟩
  rw [hlength]
  rfl

/-- what has been written can be read, and nothing tells it from what it was written of -/
theorem restore_document [Hashing] (hr : Reachable kind c g) (hs : c.bucketLength.secs.toNat < 2 ^ 63)
    (hw : g.Writable) :
    ∃ g', restore kind c g.document = .ok g' ∧
      Checksum.checksum g' = Checksum.checksum g ∧ g'.document = g.document ∧
      g'.view = g.view ∧ ∀ ops, g'.trace ops = g.trace ops := by
  obtain ⟨g', hrestore, halike⟩ := exists_restore (hr.sound hs) hw
  have hview := halike.view_eq.symm
  exact ⟨g', hrestore, congrArg View.checksum hview, congrArg View.document hview, hview,
    fun ops => (halike.trace_eq ops).symm⟩

/-- measurements with an open span, one of them late -/
theorem restore_document_of_measured :
    let c : Config :=
      { Config.default with latencyBuckets := 1, multiBucketLengths := [.ofSecs 600] }
    let d : Directory := ⟨fun _ => .active, fun _ => .active⟩
    let ops : List Op :=
      [.add d ⟨some 0, some 7, some 2, [⟨0x3fe0000000000000⟩], some 3, none, [some "host"], false⟩,
       .add d ⟨some 310, some 7, some 2, [⟨0x3fe0000000000000⟩, ⟨0xc000000000000000⟩], some 1, none,
        [none, some "host"], false⟩,
       .sample 0]
    ∃ g, new .metric c 300 = .ok g ∧
      ∃ g', restore .metric c (g.run ops).document = .ok g' ∧
        Checksum.checksum g' = Checksum.checksum (g.run ops) ∧
        g'.document = (g.run ops).document ∧ g'.view = (g.run ops).view ∧
        ∀ further, g'.trace further = (g.run ops).trace further := by
  intro c d ops
  have hvalid : c.fault? .metric = none := by decide
  have hnew := new_eq hvalid 300
  exact ⟨_, hnew, restore_document ⟨300, _, ops, hnew, rfl⟩ (by decide) (by decide +kernel)⟩

end Gatherer

end EventBuckets
