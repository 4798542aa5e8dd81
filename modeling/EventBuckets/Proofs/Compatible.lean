import EventBuckets.Proofs.Outline
import EventBuckets.Proofs.Restored

/-!
# The configurations that restore a gatherer

The latency is not written.  Still a shorter one cannot restore a gatherer, since every retained
bucket is written, an empty one too, and has to fit the window.  Under a longer latency there are
empty buckets before those that were written.

* `Ring.get?_widened_of_lt`        the buckets that a wider window adds;
* `Ring.latency_le_of_ofNodes`     the room that a ring needs to be read;
* `Spans.mem_iff_of_ofNodes`       the lengths that spans need to be read;
* `Series.EmptyAt`                 the single bucket of a series is there, but empty;
* `Gatherer.accommodates_of_restore`
                                   a configuration that restores a gatherer has room for it;
* `Gatherer.restores_just_if_accommodates`
                                   the configurations that restore a gatherer, and what they restore.
-/

set_option linter.unusedSectionVars false

namespace EventBuckets
open Node Restore

theorem Restore.Gives.yields {α : Type} {x : Restore α} {a : α} (h : Gives x a) : Yields x a :=
  have ⟨pool, hpool⟩ := h .empty
  ⟨_, pool, hpool⟩

/-! ## lengths -/

theorem Duration.ext_seconds {d d' : Duration} (h : d.seconds = d'.seconds)
    (hn : d.nanos = d'.nanos) : d = d' := by
  obtain ⟨secs, nanos⟩ := d
  obtain rfl : secs = d'.secs := seconds_inj h
  obtain rfl : nanos = d'.nanos := hn
  rfl

/-- the spans of a valid configuration are known from their seconds -/
theorem Config.mem_multiBucketLengths {c : Config} {kind : SeriesKind} (h : c.fault? kind = none)
    {d : Duration} : d ∈ c.multiBucketLengths ↔ d.nanos = 0 ∧ d.seconds ∈ c.spanSeconds := by
  have hnanos (d : Duration) (hd : d ∈ c.multiBucketLengths) : d.nanos = 0 := by
    have hfits := fitsSpan_of_valid h hd
    unfold fitsSpan at hfits
    simp only [Bool.and_eq_true, decide_eq_true_eq] at hfits
    exact hfits.1.1
  constructor
  · intro hd
    exact ⟨hnanos d hd, List.mem_map_of_mem hd⟩
  · rintro ⟨hn, hd⟩
    obtain ⟨d', hd', hseconds⟩ := List.mem_map.mp hd
    rw [← Duration.ext_seconds hseconds ((hnanos d' hd').trans hn.symm)]
    exact hd'

/-! ## rings -/

namespace Ring
variable {α : Type} {r r' : Ring α} {length start : Int} {latency latency' : Nat}

theorem get?_placed_of_ne (h : r.Covers length latency start) {es : List (Int × α)} {t : Int}
    (hes : ∀ e ∈ es, bucketAt e.1 length ≠ bucketAt t length) : (r.placed es).get? t = r.get? t := by
  induction es generalizing r with
  | nil => rfl
  | cons e es ih =>
    apply (ih (h.modify e.1 _) fun x hx => hes x (List.mem_cons_of_mem _ hx)).trans
    rw [get?_modify h.sound, h.length_eq, if_neg (hes e List.mem_cons_self).symm]

variable [PairData α]

/-- from the oldest bucket on a wider window has the same buckets, and none after the newest one -/
theorem get?_widened_of_le (h : r.Covers length latency start) (hle : latency ≤ latency') {t : Int}
    (ht : r.oldest ≤ bucketAt t length) : (r.widened latency').get? t = r.get? t := by
  by_cases hc : r.contains t = true
  · exact get?_widened h hle hc
  · have hpast : ¬bucketAt t length ≤ start := by
      intro hbefore
      exact hc (h.contains_iff.mpr ⟨h.oldest_eq ▸ ht, hbefore⟩)
    have hc' : ¬(r.widened latency').contains t = true := by
      intro hin
      exact hpast ((h.widened latency').contains_iff.mp hin).2
    rw [get?_eq_none_of_not_contains (Bool.eq_false_iff.mpr hc),
      get?_eq_none_of_not_contains (Bool.eq_false_iff.mpr hc')]

/-- the buckets that a wider window has before the oldest one are empty -/
theorem get?_widened_of_lt (h : r.Covers length latency start) {t : Int}
    (ht : start - latency' * length ≤ bucketAt t length) (hlt : bucketAt t length < r.oldest) :
    (r.widened latency').get? t = some ∅ := by
  have hnew := h.new_newest latency'
  have hbefore : bucketAt t length ≤ start := by
    have hroom : 0 ≤ (latency : Int) * length := mul_nonneg (Int.natCast_nonneg _) h.pos.le
    rw [h.oldest_eq] at hlt
    omega
  have hempty : (new latency' r.length r.newest : Ring α).get? t = some ∅ :=
    get?_new (h.length_eq ▸ h.pos) latency' _ t (hnew.contains_iff.mpr ⟨ht, hbefore⟩)
  rw [← hempty]
  apply get?_placed_of_ne hnew
  intro e he
  obtain ⟨-, halign, hle, -⟩ := h.of_mem_entries he
  rw [halign]
  omega

variable [ReadsBack α]

/-- a ring that takes entries up has their buckets -/
theorem contains_of_readNodes {es : List (Int × α)} (hes : ∀ e ∈ es, IsTime e.1)
    {state : Option (Ring α)}
    (h : Yields ((es.map fun (time, item) =>
      Tag.bucket.level (Tag.time.int time :: persist item)).foldlM (readNode latency length)
        (some r)) state) : ∀ e ∈ es, r.contains e.1 = true := by
  induction es generalizing r with
  | nil =>
    intro e he
    cases he
  | cons e es ih =>
    rw [List.map_cons, List.foldlM_cons] at h
    obtain ⟨state₁, hfirst, hrest⟩ := h.exists_of_bind
    obtain ⟨hname, -⟩ | ⟨-, -, ring, ring', hring, hread, rfl⟩ := readNode_cases hfirst
    · exact absurd (show Tag.bucket.name = Tag.latestStart.name from hname) (by decide)
    · obtain rfl := Option.some.inj hring
      obtain ⟨first, rest, time, item, hheld, -, htime, hc, -, rfl⟩ := readBucket_spec hread
      obtain ⟨rfl, rfl⟩ := List.cons.inj (show _ :: _ = first :: rest from hheld)
      rw [time_int _ _ (hes e List.mem_cons_self)] at htime
      obtain rfl := Except.ok.inj htime
      intro x hx
      rcases List.mem_cons.mp hx with rfl | hx
      · exact hc
      · have hin := ih (fun y hy => hes y (List.mem_cons_of_mem _ hy)) hrest x hx
        rwa [contains_modify] at hin

/-- a ring is read only where there is room for its oldest bucket -/
theorem latency_le_of_ofNodes (h : r.Covers length latency start) (hw : r.Writable)
    (hread : Yields (ofNodes latency' length r.nodes) r') : latency ≤ latency' := by
  obtain ⟨state, hstate, -⟩ := hread.exists_of_bind
  unfold nodes at hstate
  rw [List.foldlM_cons] at hstate
  obtain ⟨state₁, hfirst, hrest⟩ := hstate.exists_of_bind
  obtain ⟨-, t, ht, rfl⟩ | ⟨hname, -⟩ := readNode_cases hfirst
  · rw [time_int _ _ hw.newest] at ht
    obtain rfl := Except.ok.inj ht
    have hnew := h.new_newest latency'
    rw [h.length_eq] at hnew
    have hnonneg : 0 ≤ (latency : Int) * length := mul_nonneg (Int.natCast_nonneg _) h.pos.le
    have haligned : bucketAt r.oldest length = r.oldest := by
      rw [h.oldest_eq]
      exact bucketAt_of_dvd (Int.dvd_sub h.aligned (Int.dvd_mul_left _ _))
    have holdest : r.contains r.oldest = true := by
      rw [h.contains_iff, haligned, h.oldest_eq]
      omega
    obtain ⟨e, he, hplace⟩ := h.exists_entry holdest
    have htimes : ∀ e ∈ r.entries, IsTime e.1 := by
      intro e he
      obtain ⟨-, -, hlo, hhi⟩ := h.of_mem_entries he
      exact ⟨hw.oldest.1.trans hlo, lt_of_le_of_lt hhi hw.newest.2⟩
    have hin := contains_of_readNodes htimes hrest e he
    rw [hnew.contains_iff, hplace, haligned, haligned, h.oldest_eq] at hin
    have hroom : (latency : Int) * length ≤ latency' * length := by omega
    exact_mod_cast le_of_mul_le_mul_right hroom h.pos
  · exact absurd (show Tag.latestStart.name = Tag.bucket.name from hname) (by decide)

end Ring

/-! ## spans -/

theorem Spans.mem_iff_of_ofNodes {α : Type} [PairData α] [ReadsBack α] {s s' : Spans α}
    {lengths lengths' : List Int} (h : ∀ length, s.hasLength length = true ↔ length ∈ lengths)
    (hw : s.Writable) (hread : Yields (ofNodes lengths' s.nodes) s') (length : Int) :
    length ∈ lengths' ↔ length ∈ lengths := by
  -- in either case the lengths are those that the nodes list
  have hlisted {lengths : List Int} {s' : Spans α} (hread : Yields (ofNodes lengths s.nodes) s') :
      length ∈ lengths ↔ ∃ start, (length, start) ∈ outline s.nodes := by
    have hspans := (outline_of_ofNodes hread).2 length
    constructor
    · intro hmem
      exact ⟨_, (hspans _).mpr ⟨hmem, rfl⟩⟩
    · rintro ⟨start, hmem⟩
      exact ((hspans start).mp hmem).1
  rw [hlisted hread, hlisted (gives_ofNodes_nodes h hw).yields]

/-! ## series -/

namespace Series
variable {s : Series} {kind : SeriesKind} {c c' : Config} {start t : Int}

/-- the single bucket that holds a time is there, but empty -/
def EmptyAt (s : Series) (time : Int) : Prop :=
  match s with
  | occurrences s => s.window.ring.get? time = some ∅
  | measured s => s.window.ring.get? time = some ∅

theorem emptyAt_refitted (h : s.Fits c start kind)
    (ht : start - c'.latencyBuckets * c.bucketSeconds ≤ bucketAt t c.bucketSeconds)
    (hlt : bucketAt t c.bucketSeconds < start - c.latencyBuckets * c.bucketSeconds) :
    (s.refitted c').EmptyAt t := by
  cases h with
  | occurrences window =>
    rw [← window.ring.oldest_eq] at hlt
    exact Ring.get?_widened_of_lt window.ring ht hlt
  | measured window =>
    rw [← window.ring.oldest_eq] at hlt
    exact Ring.get?_widened_of_lt window.ring ht hlt

end Series

/-! ## gatherers -/

namespace Gatherer
variable {g g' : Gatherer} {kind kind' : SeriesKind} {c c' : Config}

theorem kind_eq_of_document (h : g.Sound kind c) {nodes : List Node}
    (hd : g.document.nodes = [kind'.tag.level nodes]) : kind' = kind := by
  have hlevel : kind.tag.level g.snapshot.nodes = kind'.tag.level nodes := by
    have hkind : g.snapshot.kind = kind := h.kind_eq
    rw [← hkind]
    exact List.singleton_inj.mp hd
  have htag : kind.tag = kind'.tag := Tag.name_injective (Node.level.inj hlevel).1
  cases kind <;> cases kind' <;> first | rfl | cases htag

/-- a document is read only with the bucket length that it says, and then the counts are read from
their levels -/
theorem of_ofDocument (h : g.Sound kind c) (hw : g.Writable) {s : Snapshot}
    (hread : Yields (Snapshot.ofDocument kind c' g.document) s) :
    g.length = c'.bucketSeconds ∧
      Yields (Window.ofLevels c' ⟨some g.counts.ring.nodes, some g.counts.spans.nodes⟩) s.counts := by
  obtain ⟨nodes, hnodes, hread⟩ := hread.exists_of_bind
  obtain rfl := Except.ok.inj ((body_document h).symm.trans hnodes.eq_ok)
  obtain ⟨p, hp, hread⟩ := hread.exists_of_bind
  have hlength : g.length = c'.bucketSeconds := by
    have hparts := hp.eq_ok
    have hcons : g.snapshot.nodes = Tag.bucketLength.int g.length :: g.snapshot.nodes.tail := rfl
    unfold Snapshot.readParts at hparts
    rw [hcons, List.foldlM_cons] at hparts
    obtain ⟨p₁, hfirst, -⟩ := Except.exists_of_bind hparts
    unfold Snapshot.readPart at hfirst
    have htime : IsTime g.length := isTime_seconds g.config.bucketLength
    simp only [tag?_int, except_ok_bind, time_int _ _ htime] at hfirst
    split at hfirst
    next heq => exact heq
    next => cases hfirst
  rw [← hlength, readParts_nodes hw] at hp
  obtain rfl := Except.ok.inj hp.eq_ok
  obtain ⟨start, hstart, hread⟩ := hread.exists_of_bind
  obtain ⟨counts, hcounts, hread⟩ := hread.exists_of_bind
  obtain ⟨inner, hinner, hread⟩ := hread.exists_of_bind
  obtain ⟨series, hseries, hread⟩ := hread.exists_of_bind
  obtain rfl := hread.eq_of_pure
  exact ⟨hlength, hcounts⟩

theorem accommodates_of_restore (h : g.Sound kind c) (hw : g.Writable)
    (hr : restore kind' c' g.document = .ok g') :
    kind' = kind ∧ c'.fault? kind' = none ∧ c'.Accommodates c := by
  obtain ⟨hvalid, s, pool, hread, rfl⟩ := exists_of_restore hr
  obtain ⟨nodes, hnodes, -⟩ := hread.exists_of_bind
  obtain rfl := kind_eq_of_document h (Snapshot.nodes_of_body hnodes.eq_ok)
  obtain ⟨hlength, hcounts⟩ := of_ofDocument h hw hread
  obtain ⟨ringNodes, hringNodes, hcounts⟩ := hcounts.exists_of_bind
  obtain rfl := Option.some.inj (of_required hringNodes.eq_ok)
  obtain ⟨ring, hring, hcounts⟩ := hcounts.exists_of_bind
  obtain ⟨spanNodes, hspanNodes, hcounts⟩ := hcounts.exists_of_bind
  obtain rfl := Option.some.inj (of_required hspanNodes.eq_ok)
  obtain ⟨spans, hspans, -⟩ := hcounts.exists_of_bind
  rw [h.length_eq] at hlength
  refine ⟨rfl, hvalid, ?_, ?_, ?_⟩
  · exact Duration.ext_seconds hlength.symm
      ((Config.nanos_of_valid hvalid).trans (Config.nanos_of_valid h.valid).symm)
  · intro d
    rw [Config.mem_multiBucketLengths hvalid, Config.mem_multiBucketLengths h.valid,
      Spans.mem_iff_of_ofNodes h.counts.spans hw.counts.spans hspans]
  · rw [← hlength] at hring
    exact Ring.latency_le_of_ofNodes h.counts.ring hw.counts.ring hring

/-- a gatherer is restored just under the valid configurations of its kind that have room for it;
its buckets are as they were then, and those that a longer latency adds are empty, in the counts and
in the series -/
theorem restores_just_if_accommodates (hr : Reachable kind c g)
    (hs : c.bucketLength.secs.toNat < 2 ^ 63) (hw : g.Writable) (kind' : SeriesKind)
    (c' : Config) :
    ((∃ g', restore kind' c' g.document = .ok g') ↔
      kind' = kind ∧ c'.fault? kind' = none ∧ c'.Accommodates c) ∧
    ∀ g', restore kind' c' g.document = .ok g' →
      (∀ t, g.oldest ≤ t → g'.pairCounts t = g.pairCounts t ∧ g'.influences t = g.influences t ∧
        ∀ p, g'.nullsOnly t p = g.nullsOnly t p) ∧
      ∀ t, g.start - c'.latencyBuckets * c'.bucketSeconds ≤ t → t < g.oldest →
        g'.bucket? t = some ∅ ∧ g'.series.EmptyAt t := by
  have h := hr.sound hs
  constructor
  · constructor
    · rintro ⟨g', hg'⟩
      exact accommodates_of_restore h hw hg'
    · rintro ⟨rfl, hvalid, hc⟩
      obtain ⟨pool, hpool⟩ := exists_restore_of_accommodates h hw hvalid hc
      exact ⟨_, hpool⟩
  · intro g' hg'
    obtain ⟨rfl, hvalid, hc⟩ := accommodates_of_restore h hw hg'
    obtain ⟨pool, hpool⟩ := exists_restore_of_accommodates h hw hvalid hc
    obtain rfl := Except.ok.inj (hpool.symm.trans hg')
    have hring := h.counts.ring
    have holdest : g.counts.ring.oldest = g.oldest := by
      unfold Gatherer.oldest
      rw [hring.oldest_eq, h.latency_eq, h.length_eq]
    constructor
    · intro t ht
      have hbucket : (ofSnapshot c' ⟨g.length, g.start, g.earliest,
          g.counts.widened c'.latencyBuckets, g.series.refitted c'⟩ pool).bucket? t = g.bucket? t := by
        apply Ring.get?_widened_of_le hring hc.latencyBuckets_le
        rw [holdest, ← h.length_eq]
        exact h.le_bucketAt_of_oldest_le ht
      unfold pairCounts influences nullsOnly
      rw [hbucket]
      exact ⟨rfl, rfl, fun p => rfl⟩
    · intro t hfrom hto
      rw [hc.bucketSeconds_eq] at hfrom
      have hreached := le_bucketAt hring.pos (Int.dvd_sub hring.aligned (Int.dvd_mul_left _ _)) hfrom
      have hbefore : bucketAt t c.bucketSeconds < g.oldest :=
        lt_of_le_of_lt (bucketAt_le t hring.pos) hto
      rw [← holdest] at hbefore
      refine ⟨Ring.get?_widened_of_lt hring hreached hbefore, ?_⟩
      rw [hring.oldest_eq] at hbefore
      exact Series.emptyAt_refitted h.series hreached hbefore

/-- a late event is found under a longer latency, and a shorter one has no room for it -/
theorem restores_just_if_accommodates_late :
    let c : Config :=
      { Config.default with latencyBuckets := 1, multiBucketLengths := [.ofSecs 600, .ofSecs 900] }
    let wide : Config :=
      { Config.default with latencyBuckets := 3, multiBucketLengths := [.ofSecs 900, .ofSecs 600] }
    let narrow : Config := { c with latencyBuckets := 0 }
    let d : Directory := ⟨fun _ => .active, fun _ => .active⟩
    let ops : List Op :=
      [.add d ⟨some 310, some 7, some 2, [], some 1, some "a", [], false⟩,
       .add d ⟨some 0, some 7, some 2, [], some 3, some "b", [], false⟩]
    ∃ g, new .eventRate c 300 = .ok g ∧ (g.run ops).oldest = 0 ∧
      (∃ g', restore .eventRate wide (g.run ops).document = .ok g' ∧
        g'.pairCounts 0 = [(⟨7, 2⟩, 3)] ∧ g'.bucket? (-600) = some ∅ ∧
        g'.series.EmptyAt (-600)) ∧
      ¬∃ g', restore .eventRate narrow (g.run ops).document = .ok g' := by
  intro c wide narrow d ops
  have hvalid : c.fault? .eventRate = none := by decide
  have hnew := new_eq hvalid 300
  have hr : Reachable .eventRate c _ := ⟨300, _, ops, hnew, rfl⟩
  have hexact := restores_just_if_accommodates hr (by decide) (by decide +kernel)
  refine ⟨_, hnew, by decide +kernel, ?_, ?_⟩
  · have hspans (d : Duration) : d ∈ wide.multiBucketLengths ↔ d ∈ c.multiBucketLengths := by
      simp [wide, c, or_comm]
    have hwide : wide.Accommodates c := ⟨rfl, hspans, by decide⟩
    obtain ⟨hiff, hsame⟩ := hexact .eventRate wide
    obtain ⟨g', hg'⟩ := hiff.mpr ⟨rfl, by decide, hwide⟩
    obtain ⟨hcounts, hempty⟩ := hsame g' hg'
    refine ⟨g', hg', (hcounts 0 (by decide +kernel)).1.trans (by decide +kernel), ?_⟩
    exact hempty (-600) (by decide +kernel) (by decide +kernel)
  · intro hnarrow
    obtain ⟨-, -, hroom⟩ := (hexact .eventRate narrow).1.mp hnarrow
    exact absurd hroom.latencyBuckets_le (by decide)

end Gatherer

end EventBuckets
