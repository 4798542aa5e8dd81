import EventBuckets.Proofs.Outline

/-!
# Restored counts

Counts are restored as they are written, a zero too, and they are in the buckets that a window says,
whatever the clock says.

* `Node.NoZeroCount`     no zero is written among counts;
* `Aggregates.NoZero`    no zero is stored;
* `noZero_of_restore`    so none is stored if none is written;
* `SameCounts`           the same clock and counts: what two gatherers take in is counted alike;
* `found_of_counts`      a record is found if the clock is in step with the counts;
* `restore_in_step_iff`  when a restored gatherer is in step, and what follows.
-/

set_option linter.unusedSectionVars false

namespace EventBuckets
open Node Restore

/-! ## zero counts -/

namespace Node
variable {n : Node} {nodes : List Node}

/-- no entry of counts, at any depth, is a zero -/
def NoZeroCount (nodes : List Node) : Prop :=
  ∀ n ∈ subnodesOf nodes, n.name = Tag.counts.name → ∀ e ∈ n.held, lastWord? .value e.held ≠ some 0

instance (nodes : List Node) : Decidable (NoZeroCount nodes) :=
  inferInstanceAs (Decidable (∀ n ∈ subnodesOf nodes, n.name = Tag.counts.name →
    ∀ e ∈ n.held, lastWord? .value e.held ≠ some 0))

theorem mem_subnodes (n : Node) : n ∈ n.subnodes := by
  cases n <;> simp [subnodes]

theorem subnodesOf_held {m : Node} (hm : m ∈ subnodesOf n.held) : m ∈ n.subnodes := by
  cases n with
  | leaf tag text => cases hm
  | level tag nodes => exact List.mem_cons_of_mem _ hm

theorem NoZeroCount.of_subset {nodes' : List Node} (h : NoZeroCount nodes)
    (hsub : ∀ n ∈ nodes', n ∈ nodes) : NoZeroCount nodes' := by
  intro m hm
  obtain ⟨n, hn, hmn⟩ := mem_subnodesOf.mp hm
  exact h m (mem_subnodesOf.mpr ⟨n, hsub n hn, hmn⟩)

theorem NoZeroCount.held (h : NoZeroCount nodes) (hn : n ∈ nodes) : NoZeroCount n.held :=
  fun m hm => h m (mem_subnodesOf.mpr ⟨n, hn, subnodesOf_held hm⟩)

theorem NoZeroCount.lastLevel? {t : Tag} {inner : List Node} (h : NoZeroCount nodes)
    (hinner : Node.lastLevel? t nodes = some inner) : NoZeroCount inner := by
  obtain ⟨n, hn, hchildren⟩ := Option.bind_eq_some_iff.mp hinner
  have hmem : n ∈ nodes := (of_last? hn).1
  cases hc : n.children t with
  | error e =>
    rw [hc] at hchildren
    cases hchildren
  | ok inner' =>
    rw [hc] at hchildren
    obtain rfl := Option.some.inj hchildren
    exact held_of_children hc ▸ h.held hmem

end Node

namespace Aggregates
variable {n : Node} {nodes : List Node} {a a' : Aggregates}

/-- no stored count is a zero -/
def NoZero (a : Aggregates) : Prop := ∀ p : Pair, a.counts[p]? ≠ some 0

theorem noZero_empty : (∅ : Aggregates).NoZero := by
  intro p
  simp

/-- the number that an entry has under a tag -/
def Entry.number? (e : Entry) : Tag → Option Nat
  | .pid => e.pid
  | .cid => e.cid
  | .value => e.value
  | _ => none

/-- a number of an entry is the one that is written last -/
theorem number?_of_readEntry {e : Entry} (h : Yields (readEntry n) e) {t : Tag}
    (ht : t ∈ [Tag.pid, .cid, .value]) : e.number? t = lastWord? t n.held := by
  obtain ⟨-, -, h⟩ := readEntry_spec h
  have hnone : (⟨none, none, none, none⟩ : Entry).number? t = none := by fin_cases ht <;> rfl
  refine (reads_of_yields h).eq_last (f := fun e : Entry => e.number? t) hnone
    (fun e n e' h hn => ?_) fun e n e' h hn => ?_
  · rcases readField_cases h with ⟨hname, x, hx, rfl⟩ | ⟨hname, x, hx, rfl⟩ | ⟨hname, -⟩ |
      ⟨hname, x, hx, rfl⟩
    all_goals obtain rfl := Tag.name_injective (hn.symm.trans hname)
    · rw [hx]
      rfl
    · rw [hx]
      rfl
    · exact absurd ht (by decide)
    · rw [hx]
      rfl
  · rcases readField_cases h with ⟨hname, x, -, rfl⟩ | ⟨hname, x, -, rfl⟩ | ⟨hname, x, -, rfl⟩ |
      ⟨hname, x, -, rfl⟩
    all_goals fin_cases ht <;> first | rfl | exact (hn hname).elim

theorem noZero_of_readCounts {counts counts' : PairMap Nat}
    (h : Yields (nodes.foldlM readCount counts) counts')
    (hnodes : ∀ e ∈ nodes, lastWord? .value e.held ≠ some 0)
    (hcounts : ∀ p : Pair, counts[p]? ≠ some 0) : ∀ p : Pair, counts'[p]? ≠ some 0 := by
  refine (reads_of_yields h).invariant (P := fun counts : PairMap Nat =>
    ∀ p : Pair, counts[p]? ≠ some 0) hcounts fun counts n hn counts' hP h p => ?_
  obtain ⟨e, pair, value, he, -, -, hvalue, rfl⟩ := readCount_spec h
  rw [Std.ExtTreeMap.getElem?_insert]
  split
  · have hlast : e.value = lastWord? .value n.held := number?_of_readEntry he (t := .value) (by decide)
    rw [← hvalue, hlast]
    exact hnodes n hn
  · exact hP p

theorem noZero_of_restore (h : Yields (restore nodes) a) (hnodes : NoZeroCount nodes) :
    a.NoZero := by
  refine (reads_of_yields h).invariant (P := NoZero) noZero_empty fun a n hn a' ha h => ?_
  obtain ⟨-, ⟨hname, m, hm, rfl⟩ | ⟨-, s, -, rfl⟩ | ⟨-, fields, -, rfl⟩⟩ := readPart_cases h
  · exact noZero_of_readCounts hm
      (hnodes n (mem_subnodesOf.mpr ⟨n, hn, mem_subnodes n⟩) hname) ha
  · exact ha
  · exact ha

end Aggregates

namespace Ring
variable {r : Ring Aggregates} {nodes : List Node} {latency : Nat} {length : Int}

def NoZero (r : Ring Aggregates) : Prop := ∀ t a, r.get? t = some a → a.NoZero

theorem noZero_new (hpos : 0 < length) (latency : Nat) (t : Int) : (new latency length t).NoZero := by
  have hs : (new latency length t : Ring Aggregates).Sound := sound_new hpos latency t
  intro u a ha
  have hu : (new latency length t : Ring Aggregates).contains u = true := by
    rw [← isSome_get? hs, ha]
    rfl
  rw [get?_new hpos latency t u hu] at ha
  obtain rfl := Option.some.inj ha
  exact Aggregates.noZero_empty

theorem NoZero.put (h : r.NoZero) (hs : r.Sound) {a : Aggregates} (ha : a.NoZero) (t : Int) :
    (r.modify t fun _ => a).NoZero := by
  intro u b hb
  rw [get?_modify hs] at hb
  split at hb
  · obtain ⟨old, -, rfl⟩ := Option.map_eq_some_iff.mp hb
    exact ha
  · exact h u b hb

theorem noZero_of_ofNodes (hpos : 0 < length) (h : Yields (ofNodes latency length nodes) r)
    (hnodes : NoZeroCount nodes) : r.NoZero := by
  refine (invariant_of_ofNodes (P := fun r : Ring Aggregates => r.Sound ∧ r.NoZero) h
    (fun t => ⟨sound_new hpos latency t, noZero_new hpos latency t⟩) ?_).2
  intro ring ⟨hs, hring⟩ n hn first rest item hheld hitem time
  refine ⟨hs.modify time _, hring.put hs (Aggregates.noZero_of_restore hitem ?_) time⟩
  refine (hnodes.held hn).of_subset fun m hm => ?_
  rw [hheld]
  exact List.mem_cons_of_mem _ hm

end Ring

namespace Spans
variable {s s' : Spans Aggregates} {n : Node} {nodes : List Node} {lengths : List Int}

def NoZero (s : Spans Aggregates) : Prop :=
  ∀ (length : Int) (o : OpenSpan Aggregates), s.byLength[length]? = some (some o) → o.contents.NoZero

theorem noZero_new (lengths : List Int) : (new lengths).NoZero := each_new lengths _

theorem NoZero.readSpan (h : s.NoZero) {seen seen' : Std.ExtTreeSet Int compare}
    (hread : Yields (Spans.readSpan (s, seen) n) (s', seen')) (hn : NoZeroCount n.held) :
    s'.NoZero := by
  obtain ⟨length', span, -, -, -, -, hcontents, rfl, -⟩ := readSpan_spec hread
  intro length o ho
  rw [Std.ExtTreeMap.getElem?_insert] at ho
  split at ho
  · obtain ⟨m, hm, hitem⟩ := hcontents o (Option.some.inj ho)
    exact Aggregates.noZero_of_restore hitem (hn.held (of_last? hm).1)
  · exact h length o ho

theorem noZero_of_ofNodes (h : Yields (ofNodes lengths nodes) s) (hnodes : NoZeroCount nodes) :
    s.NoZero := by
  obtain ⟨seen, hread, -⟩ := readSpans_of_ofNodes h
  exact (reads_of_yields hread).invariant
    (P := fun state : Spans Aggregates × Std.ExtTreeSet Int compare => state.1.NoZero)
    (noZero_new lengths) fun _ n hn _ hP hstep => hP.readSpan hstep (hnodes.held hn)

end Spans

theorem Window.noZero_of_ofLevels {c : Config} (hpos : 0 < c.bucketSeconds) {l : Window.Levels}
    {w : Window Aggregates} (h : Yields (Window.ofLevels c l) w)
    (hring : ∀ nodes, l.ring = some nodes → NoZeroCount nodes)
    (hspans : ∀ nodes, l.spans = some nodes → NoZeroCount nodes) :
    ∀ time length a, w.get? time length = some a → a.NoZero := by
  obtain ⟨ringNodes, hringNodes, h⟩ := h.exists_of_bind
  obtain ⟨ring, hreadRing, h⟩ := h.exists_of_bind
  obtain ⟨spanNodes, hspanNodes, h⟩ := h.exists_of_bind
  obtain ⟨spans, hreadSpans, h⟩ := h.exists_of_bind
  obtain rfl := h.eq_of_pure
  intro time length a ha
  unfold Window.get? at ha
  split at ha
  · exact Ring.noZero_of_ofNodes hpos hreadRing (hring _ (of_required hringNodes.eq_ok)) time a ha
  · have hspans := Spans.noZero_of_ofNodes hreadSpans (hspans _ (of_required hspanNodes.eq_ok))
    exact Spans.Each.of_get? hspans ha

namespace Gatherer
variable {g h : Gatherer} {kind : SeriesKind} {c : Config} {d : Document}

/-- no interval of a restored gatherer has a zero count if none is written -/
theorem noZero_of_restore (hs : c.bucketLength.secs.toNat < 2 ^ 63)
    (hr : restore kind c d = .ok g) (hd : NoZeroCount d.nodes) :
    ∀ time length a, g.counts.get? time length = some a → a.NoZero := by
  obtain ⟨hvalid, s, pool, hread, rfl⟩ := exists_of_restore hr
  obtain ⟨nodes, -, levels, hnodes, -, hring, hspans, hcounts, -, -⟩ :=
    Snapshot.ofDocument_spec hread
  rw [hnodes] at hd
  have hbody : NoZeroCount nodes := hd.held List.mem_cons_self
  exact Window.noZero_of_ofLevels (Config.bucketSeconds_pos hvalid hs) hcounts
    (fun inner hinner => hbody.lastLevel? (hring.symm.trans hinner))
    fun inner hinner => hbody.lastLevel? (hspans.symm.trans hinner)

end Gatherer

/-! ## records -/

theorem Aggregates.counts_take (a : Aggregates) {x : Recorded} (hnull : x.event.isNull = false)
    (hpos : 0 < x.count) : (a.take x).counts = addTo a.counts x.pair x.count := by
  simp [take, hnull, countInfluences, countPair, addPositive, hpos]

namespace Gatherer
variable {g h : Gatherer} {kind : SeriesKind} {c : Config} {d : Document}

/-- the same clock and counts -/
def SameCounts (g h : Gatherer) : Prop := ∃ series pool, h = { g with series, pool }

theorem SameCounts.openNext (e : SameCounts g h) (n : Nat) (counting : Bool) :
    SameCounts (g.openNext n counting) (h.openNext n counting) := by
  obtain ⟨series, pool, rfl⟩ := e
  induction n with
  | zero => exact ⟨series, pool, rfl⟩
  | succ n ih =>
    obtain ⟨series', pool', ih⟩ := ih
    rw [openNext_succ, openNext_succ, ih]
    exact ⟨_, pool', rfl⟩

theorem SameCounts.openBucket (e : SameCounts g h) (start : Int) (counting : Bool) :
    SameCounts (g.openBucket start counting) (h.openBucket start counting) := by
  obtain ⟨series, pool, rfl⟩ := e
  exact ⟨_, pool, rfl⟩

theorem SameCounts.startAt (e : SameCounts g h) (start : Int) :
    SameCounts { g with start } { h with start } := by
  obtain ⟨series, pool, rfl⟩ := e
  exact ⟨series, pool, rfl⟩

theorem SameCounts.advance (e : SameCounts g h) (t : Int) (counting : Bool) :
    SameCounts (g.advance t counting) (h.advance t counting) := by
  have hstart : h.start = g.start := by
    obtain ⟨series, pool, rfl⟩ := e
    rfl
  have hconfig : h.config = g.config := by
    obtain ⟨series, pool, rfl⟩ := e
    rfl
  unfold Gatherer.advance Gatherer.length Gatherer.latency
  simp only [hstart, hconfig]
  by_cases hsteps : bucketsBetween g.start (bucketAt t g.config.bucketSeconds)
      g.config.bucketSeconds ≤ 0
  · rw [if_pos hsteps, if_pos hsteps]
    exact e
  · rw [if_neg hsteps, if_neg hsteps]
    by_cases hfar : ((g.config.latencyBuckets + 1 : Nat) : Int) < bucketsBetween g.start
        (bucketAt t g.config.bucketSeconds) g.config.bucketSeconds
    · rw [if_pos hfar, if_pos hfar]
      exact ((e.openNext _ counting).openBucket _ counting).startAt _
    · rw [if_neg hfar, if_neg hfar]
      exact (e.openNext _ counting).startAt _

theorem SameCounts.observe (e : SameCounts g h) (t : Int) :
    SameCounts (g.observe t) (h.observe t) := by
  have hnoted : SameCounts { g with earliest := some (g.earliest.elim t fun e => min e t) }
      { h with earliest := some (h.earliest.elim t fun e => min e t) } := by
    obtain ⟨series, pool, rfl⟩ := e
    exact ⟨series, pool, rfl⟩
  exact hnoted.advance t true

theorem SameCounts.record (e : SameCounts g h) (x : Event) (t : Int) (p : Pair) :
    SameCounts (g.record x t p) (h.record x t p) := by
  obtain ⟨series, pool, rfl⟩ := e
  unfold Gatherer.record
  simp only
  split
  · exact ⟨series, pool, rfl⟩
  · split
    · exact ⟨series, pool, rfl⟩
    · exact ⟨_, _, rfl⟩

theorem SameCounts.add (e : SameCounts g h) (dir : Directory) (x : Event) :
    (g.add dir x).1 = (h.add dir x).1 ∧ SameCounts (g.add dir x).2 (h.add dir x).2 := by
  have hfate (t : Int) : g.fate dir x t = h.fate dir x t := by
    obtain ⟨series, pool, rfl⟩ := e
    rfl
  have hwide (p : Pair) : SameCounts (g.widen p) (h.widen p) := by
    obtain ⟨series, pool, rfl⟩ := e
    exact ⟨series, pool, rfl⟩
  unfold Gatherer.add
  split
  next => exact ⟨rfl, e⟩
  next t ht =>
    rw [← hfate]
    split
    next => exact ⟨rfl, e⟩
    next => exact ⟨rfl, e⟩
    next => exact ⟨rfl, e⟩
    next => exact ⟨rfl, e.observe t⟩
    next p hp => exact ⟨rfl, ((hwide p).observe t).record x t p⟩

theorem SameCounts.pairCounts_eq (e : SameCounts g h) (t : Int) :
    g.pairCounts t = h.pairCounts t := by
  obtain ⟨series, pool, rfl⟩ := e
  rfl

/-- a record that is no explicit null is found among the counts of its bucket -/
theorem found_of_sound (hs : g.Sound kind c) {dir : Directory} {e : Event} {x : Recorded}
    (hx : g.recorded? dir e = some x) (hnull : x.event.isNull = false) :
    ∃ n, (x.pair, n) ∈ (g.add dir e).2.pairCounts x.time ∧ x.count ≤ n := by
  obtain ⟨-, hretains, pool, bounds, hadd⟩ := hs.add_of_recorded? hx
  obtain ⟨b, hb⟩ := Option.isSome_iff_exists.mp hretains.1
  have hbucket : (g.add dir e).2.bucket? x.time = some (b.take x) := by
    rw [hadd]
    show ((g.observe x.time).taking x).bucket? x.time = _
    rw [bucket?_taking (hs.observe x.time), hb]
    rfl
  refine ⟨b.counts[x.pair]?.getD 0 + x.count, ?_, Nat.le_add_left _ _⟩
  unfold pairCounts
  rw [hbucket]
  show _ ∈ (b.take x).counts.toList
  rw [Std.ExtTreeMap.mem_toList_iff_getElem?_eq_some,
    Aggregates.counts_take b hnull (pos_of_recorded? hx), getElem?_addTo, if_pos rfl]

/-- so is one that a gatherer takes in, the clock of which is in step with its counts -/
theorem found_of_counts (hconfig : g.config = c) (hvalid : c.fault? kind = none)
    (hcounts : g.counts.Fits c g.start) {dir : Directory} {e : Event} {x : Recorded}
    (hx : g.recorded? dir e = some x) (hnull : x.event.isNull = false) :
    ∃ n, (x.pair, n) ∈ (g.add dir e).2.pairCounts x.time ∧ x.count ≤ n := by
  -- the series may hold sample counts that no run leads to, so `g` need not be sound itself; what
  -- is counted does not depend on the series, and with a new one in its place `g` is
  let h : Gatherer := { g with series := .new kind c g.start }
  have hstart : bucketAt g.start c.bucketSeconds = g.start := bucketAt_of_dvd hcounts.ring.aligned
  have hseries : (Series.new kind c g.start).Fits c g.start kind := by
    have hfits : (Series.new kind c g.start).Fits c (bucketAt g.start c.bucketSeconds) kind :=
      Series.fits_new hcounts.ring.pos g.start
    rwa [hstart] at hfits
  have hsound : h.Sound kind c := ⟨hconfig, hvalid, hcounts, hseries⟩
  have hsame : SameCounts g h := ⟨_, _, rfl⟩
  obtain ⟨hanswer, hafter⟩ := hsame.add dir e
  have hx' : h.recorded? dir e = some x := by
    unfold recorded? at hx ⊢
    rwa [← hanswer]
  rw [hafter.pairCounts_eq]
  exact found_of_sound hsound hx' hnull

/-- a restored gatherer is in step just if its document says so, it has no zero count if none is
written, and if it is in step a record that it takes in is found among the counts -/
theorem restore_in_step_iff (hs : c.bucketLength.secs.toNat < 2 ^ 63)
    (hr : restore kind c d = .ok g) :
    (g.InStep ↔ d.outline.InStep c.bucketSeconds) ∧
      (NoZeroCount d.nodes → ∀ time length a, g.counts.get? time length = some a → a.NoZero) ∧
      (g.InStep → ∀ (dir : Directory) (e : Event) (x : Recorded), g.recorded? dir e = some x →
        x.event.isNull = false →
        ∃ n, (x.pair, n) ∈ (g.add dir e).2.pairCounts x.time ∧ x.count ≤ n) := by
  refine ⟨inStep_iff_outline hs hr, noZero_of_restore hs hr, fun h dir e x hx hnull => ?_⟩
  obtain ⟨hconfig, -, hfits, -, -⟩ := outline_of_restore hs hr
  have hnewest : g.counts.ring.newest = g.start := h.newest_eq
  rw [hnewest] at hfits
  exact found_of_counts hconfig (exists_of_restore hr).1 hfits hx hnull

/-- of two documents the first one is in step; in the other one the clock is a bucket ahead -/
theorem restore_in_step_iff_of_clock_ahead :
    let entry : Node :=
      Tag.entry.level (Aggregates.pairNodes ⟨7, 2⟩ ++ [Tag.value.nat 3])
    let d (start : Int) : Document := ⟨[Tag.eventRateGatherer.level
      [Tag.bucketLength.int 300, Tag.bucketStart.int start,
       Tag.bucketQueue.level [Tag.latestStart.int 0,
         Tag.bucket.level [Tag.time.int 0, Tag.counts.level [entry]]],
       Tag.multiBucket.level [],
       Tag.series.level [Tag.bucketQueue.level [Tag.latestStart.int 0], Tag.multiBucket.level []]]]⟩
    (∃ g, restore .eventRate .default (d 0) = .ok g ∧ g.InStep ∧
      ∀ time length a, g.counts.get? time length = some a → a.NoZero) ∧
    ∃ g, restore .eventRate .default (d 300) = .ok g ∧ ¬g.InStep := by
  intro entry d
  have restored (start : Int)
      (h : (restore .eventRate .default (d start)).toOption.isSome = true) :
      ∃ g, restore .eventRate .default (d start) = .ok g := by
    cases hr : restore .eventRate .default (d start) with
    | error e =>
      rw [hr] at h
      cases h
    | ok g => exact ⟨g, rfl⟩
  obtain ⟨g, hg⟩ := restored 0 (by decide +kernel)
  obtain ⟨g', hg'⟩ := restored 300 (by decide +kernel)
  have h := restore_in_step_iff (by decide) hg
  have h' := restore_in_step_iff (by decide) hg'
  exact ⟨⟨g, hg, h.1.mpr (by decide +kernel), h.2.1 (by decide +kernel)⟩,
    g', hg', fun hstep => absurd (h'.1.mp hstep) (by decide +kernel)⟩

end Gatherer

end EventBuckets
