import EventBuckets.Proofs.InStep
import EventBuckets.Proofs.SameRecords

/-!
# Counts and series data agree

The counts of a bucket and its series data are changed, merged, dropped and emptied by separate
steps.  Each of them treats both alike, so that at each place the two go back to the same records.

* `Window.Alongside`     two windows have buckets and open spans at the same places, related in pairs;
* `Alongside.modify`, `Alongside.sample`, ...
                         operations on both windows keep them alongside, if told the same records;
* `Series.SharesWith`    the window of the series and that of the counts tell the same records;
* `Gatherer.Coherent`    the counts of each bucket and span are sound, and its series data is within
                         them;
* `coherent_run`         that is so after every run.
-/

set_option linter.unusedSectionVars false

/-! ## options -/

theorem Option.Rel.map {α β α' β' : Type} {R : α → β → Prop} {S : α' → β' → Prop} {f : α → α'}
    {f' : β → β'} (hf : ∀ a b, R a b → S (f a) (f' b)) {o : Option α} {o' : Option β}
    (h : Option.Rel R o o') : Option.Rel S (o.map f) (o'.map f') := by
  cases h with
  | some h => exact .some (hf _ _ h)
  | none => exact .none

theorem Option.Rel.mono {α β : Type} {R S : α → β → Prop} (hRS : ∀ a b, R a b → S a b)
    {o : Option α} {o' : Option β} (h : Option.Rel R o o') : Option.Rel S o o' := by
  cases h with
  | some h => exact .some (hRS _ _ h)
  | none => exact .none

namespace EventBuckets

/-! ## rings -/

namespace Ring
variable {α β : Type} {R : α → β → Prop} {r : Ring α} {r' : Ring β} {length start : Int}
  {latency : Nat}

/-- rings of the same window have the same buckets -/
theorem Covers.contains_eq (h : r.Covers length latency start) (h' : r'.Covers length latency start)
    (t : Int) : r.contains t = r'.contains t := by
  rw [Bool.eq_iff_iff, h.contains_iff, h'.contains_iff]

/-- buckets outside of the window need not be compared -/
theorem Covers.rel_get? (h : r.Covers length latency start) (h' : r'.Covers length latency start)
    (hin : ∀ t, r.contains t = true → r'.contains t = true → Option.Rel R (r.get? t) (r'.get? t))
    (t : Int) : Option.Rel R (r.get? t) (r'.get? t) := by
  have hsame := h.contains_eq h' t
  cases ht : r.contains t with
  | true => exact hin t ht (hsame ▸ ht)
  | false =>
    rw [get?_eq_none_of_not_contains ht, get?_eq_none_of_not_contains (hsame ▸ ht)]
    exact .none

end Ring

/-! ## windows -/

/-- two open spans with the same start and related contents -/
def OpenSpan.Rel {α β : Type} (R : α → β → Prop) (o : OpenSpan α) (o' : OpenSpan β) : Prop :=
  o.start = o'.start ∧ R o.contents o'.contents

namespace Window
variable {α β : Type} {R S : α → β → Prop} {w : Window α} {w' : Window β}

/-- two windows retain the same buckets and have the same spans open, and what they have at each
place is related -/
structure Alongside (R : α → β → Prop) (w : Window α) (w' : Window β) : Prop where
  buckets : ∀ time, Option.Rel R (w.ring.get? time) (w'.ring.get? time)
  spans : ∀ length : Int, Option.Rel (Option.Rel (OpenSpan.Rel R)) w.spans.byLength[length]?
    w'.spans.byLength[length]?

theorem Alongside.mono (hRS : ∀ a b, R a b → S a b) (h : Alongside R w w') : Alongside S w w' :=
  ⟨fun t => (h.buckets t).mono hRS, fun length => (h.spans length).mono fun _ _ ho =>
    ho.mono fun _ _ hc => ⟨hc.1, hRS _ _ hc.2⟩⟩

/-- spans that are changed alike at each length -/
theorem rel_map {f : Int → Option (OpenSpan α) → Option (OpenSpan α)}
    {g : Int → Option (OpenSpan β) → Option (OpenSpan β)}
    {m : Std.ExtTreeMap Int (Option (OpenSpan α)) compare}
    {m' : Std.ExtTreeMap Int (Option (OpenSpan β)) compare} {length : Int}
    (hf : ∀ o o', Option.Rel (OpenSpan.Rel R) o o' →
      Option.Rel (OpenSpan.Rel R) (f length o) (g length o'))
    (h : Option.Rel (Option.Rel (OpenSpan.Rel R)) m[length]? m'[length]?) :
    Option.Rel (Option.Rel (OpenSpan.Rel R)) (m.map f)[length]? (m'.map g)[length]? := by
  rw [Std.ExtTreeMap.getElem?_map, Std.ExtTreeMap.getElem?_map]
  exact h.map hf

theorem rel_spans_new (lengths : List Int) (length : Int) :
    Option.Rel (Option.Rel (OpenSpan.Rel R)) (Spans.new lengths : Spans α).byLength[length]?
      (Spans.new lengths : Spans β).byLength[length]? := by
  rw [Spans.getElem?_new, Spans.getElem?_new]
  split
  · exact .some .none
  · exact .none

theorem rel_spans_clear {s : Spans α} {s' : Spans β}
    (h : ∀ length : Int, Option.Rel (Option.Rel (OpenSpan.Rel R)) s.byLength[length]?
      s'.byLength[length]?) (length : Int) :
    Option.Rel (Option.Rel (OpenSpan.Rel R)) s.clear.byLength[length]?
      s'.clear.byLength[length]? :=
  rel_map (f := fun _ _ => none) (g := fun _ _ => none) (fun _ _ _ => .none) (h length)

/-! ### windows that tell the same records -/

section Shares
variable [PairData α] [PairData β] {told : α → List Recorded → Prop}
  {told' : β → List Recorded → Prop} {put : α → Recorded → α} {put' : β → Recorded → β}
  {c : Config} {start : Int}

theorem Alongside.modify (h : Alongside R w w') (hf : w.Fits c start) (hf' : w'.Fits c start)
    (u : Int) {f : α → α} {f' : β → β} (hR : ∀ a b, R a b → R (f a) (f' b)) :
    Alongside R (w.modify u f) (w'.modify u f') := by
  refine ⟨fun t => ?_, h.spans⟩
  show Option.Rel R ((w.ring.modify u f).get? t) ((w'.ring.modify u f').get? t)
  rw [Ring.get?_modify hf.ring.sound, Ring.get?_modify hf'.ring.sound, hf.ring.length_eq,
    hf'.ring.length_eq]
  split
  · exact (h.buckets t).map hR
  · exact h.buckets t

theorem Alongside.mapTimed (h : Alongside R w w') (hf : w.Fits c start) (hf' : w'.Fits c start)
    {f : Int → α → α} {f' : Int → β → β} (hR : ∀ s a b, R a b → R (f s a) (f' s b)) (t : Int) :
    Option.Rel R ((w.ring.mapTimed f).get? t) ((w'.ring.mapTimed f').get? t) := by
  rw [Ring.get?_mapTimed hf.ring.sound, Ring.get?_mapTimed hf'.ring.sound, hf.ring.length_eq,
    hf'.ring.length_eq]
  exact (h.buckets t).map (hR _)

variable (L : Chronicle told put) (L' : Chronicle told' put')
include L L'

theorem alongside_new (hpos : 0 < c.bucketSeconds) (u : Int) :
    Alongside (Shares told told') (Window.new c u : Window α) (Window.new c u : Window β) := by
  refine ⟨Ring.Covers.rel_get? (.new hpos u) (.new hpos u) fun t ht ht' => ?_,
    rel_spans_new c.spanSeconds⟩
  have hempty : (Window.new c u : Window α).ring.get? t = some ∅ := Ring.get?_new hpos _ u t ht
  have hempty' : (Window.new c u : Window β).ring.get? t = some ∅ := Ring.get?_new hpos _ u t ht'
  rw [hempty, hempty']
  exact .some (Shares.empty L L')

theorem Alongside.startBucket (h : Alongside (Shares told told') w w') (hf : w.Fits c start)
    (hf' : w'.Fits c start) (u : Int) :
    Alongside (Shares told told') (w.startBucket u) (w'.startBucket u) := by
  refine ⟨Ring.Covers.rel_get? (hf.ring.roll u) (hf'.ring.roll u) fun t ht ht' => ?_, h.spans⟩
  have hroll : (w.startBucket u).ring.get? t = _ := Ring.get?_roll hf.ring.sound u t ht
  have hroll' : (w'.startBucket u).ring.get? t = _ := Ring.get?_roll hf'.ring.sound u t ht'
  rw [hroll, hroll', hf.ring.length_eq, hf'.ring.length_eq, hf.ring.newest_eq, hf'.ring.newest_eq]
  split
  · exact h.buckets t
  · exact .some (Shares.empty L L')

theorem Alongside.take (h : Alongside (Shares told told') w w') (hf : w.Fits c start)
    (hf' : w'.Fits c start) {x : Recorded} (hx : 0 < x.count) :
    Alongside (Shares told told') (w.modify x.time fun bucket => put bucket x)
      (w'.modify x.time fun bucket => put' bucket x) :=
  h.modify hf hf' x.time fun _ _ hR => hR.take L L' hx

theorem Alongside.emptyBucket (h : Alongside (Shares told told') w w') (hf : w.Fits c start)
    (hf' : w'.Fits c start) (u : Int) :
    Alongside (Shares told told') (w.emptyBucket u) (w'.emptyBucket u) :=
  h.modify hf hf' u fun _ _ _ => Shares.empty L L'

theorem Alongside.retain (h : Alongside (Shares told told') w w') (hf : w.Fits c start)
    (hf' : w'.Fits c start) (keeps : Pair → Bool) :
    Alongside (Shares told told') (w.retain keeps) (w'.retain keeps) :=
  ⟨h.mapTimed hf hf' fun _ _ _ hR => hR.retain L L' keeps, h.spans⟩

/-- both windows have the bucket, or neither has, and it goes into the same spans of both -/
theorem Alongside.sample (h : Alongside (Shares told told') w w') (u : Int) :
    Alongside (Shares told told') (w.sample u) (w'.sample u) := by
  have hbucket := h.buckets u
  unfold Window.sample
  generalize w.ring.get? u = o at hbucket
  generalize w'.ring.get? u = o' at hbucket
  cases hbucket with
  | none => exact h
  | @some bucket bucket' hbucket =>
    refine ⟨h.buckets, fun length => rel_map (fun o o' ho => ?_) (h.spans length)⟩
    unfold Spans.sampled
    cases ho with
    | none => exact .some ⟨rfl, (Shares.empty L L').merge L L' hbucket⟩
    | @some span span' hspan =>
      obtain ⟨hstart, hcontents⟩ := hspan
      simp only [hstart]
      split
      · exact .some ⟨rfl, hcontents.merge L L' hbucket⟩
      · split
        · exact .some ⟨hstart, hcontents⟩
        · exact .some ⟨rfl, (Shares.empty L L').merge L L' hbucket⟩

/-- a bucket that ended is emptied if it has data, an open span that ended is closed in both -/
theorem Alongside.release (h : Alongside (Shares told told') w w') (hf : w.Fits c start)
    (hf' : w'.Fits c start) (cutoff : Int) :
    Alongside (Shares told told') (w.release cutoff).1 (w'.release cutoff).1 := by
  refine ⟨fun t => ?_, fun length => rel_map (fun o o' ho => ?_) (h.spans length)⟩
  · rw [ring_release, ring_release, hf.ring.length_eq, hf'.ring.length_eq]
    exact h.mapTimed hf hf' (fun s _ _ hR => hR.release L L' c.bucketSeconds cutoff s) t
  · have hended : Spans.ended cutoff length o = Spans.ended cutoff length o' := by
      cases ho with
      | none => rfl
      | some hspan =>
        unfold Spans.ended
        simp only [hspan.1]
    rw [hended]
    split
    · exact .none
    · exact ho

theorem Alongside.clear (h : Alongside (Shares told told') w w') :
    Alongside (Shares told told') w.clear w'.clear := by
  refine ⟨fun t => ?_, rel_spans_clear h.spans⟩
  show Option.Rel _ (w.ring.clear.get? t) (w'.ring.clear.get? t)
  rw [Ring.get?_clear, Ring.get?_clear]
  exact (h.buckets t).map fun _ _ _ => Shares.empty L L'

theorem Alongside.reset (h : Alongside (Shares told told') w w') (hf : w.Fits c start)
    (hf' : w'.Fits c start) (u : Int) :
    Alongside (Shares told told') (w.reset u) (w'.reset u) := by
  refine ⟨Ring.Covers.rel_get? (hf.ring.reset u) (hf'.ring.reset u) fun t ht ht' => ?_,
    rel_spans_clear h.spans⟩
  have hempty : (w.reset u).ring.get? t = some ∅ := Ring.get?_reset hf.ring.sound u t ht
  have hempty' : (w'.reset u).ring.get? t = some ∅ := Ring.get?_reset hf'.ring.sound u t ht'
  rw [hempty, hempty']
  exact .some (Shares.empty L L')

end Shares

end Window

/-! ## series -/

namespace Series
variable {s : Series} {w : Window Aggregates} {c : Config} {start : Int} {kind : SeriesKind}

/-- the window of the series and that of the counts tell the same records at each place -/
def SharesWith (s : Series) (w : Window Aggregates) : Prop :=
  match s with
  | occurrences s => w.Alongside (Shares Aggregates.Counts DistinctTexts.Lists) s.window
  | measured s => w.Alongside (Shares Aggregates.Counts Metrics.Tallies) s.window

theorem sharesWith_new (hpos : 0 < c.bucketSeconds) (u : Int) :
    (Series.new kind c u).SharesWith (Window.new c u) := by
  cases kind with
  | eventRate => exact Window.alongside_new Aggregates.chronicle DistinctTexts.chronicle hpos u
  | metric => exact Window.alongside_new Aggregates.chronicle Metrics.chronicle hpos u

theorem SharesWith.startBucket (h : s.SharesWith w) (hw : w.Fits c start)
    (hf : s.Fits c start kind) (u : Int) (x : SampleCounts) :
    ((s.startBucket u false).withSamples x).SharesWith (w.startBucket u) := by
  cases hf with
  | occurrences window =>
    exact Window.Alongside.startBucket Aggregates.chronicle DistinctTexts.chronicle h hw window u
  | measured window samples weight =>
    exact Window.Alongside.startBucket Aggregates.chronicle Metrics.chronicle h hw window u

theorem SharesWith.sample (h : s.SharesWith w) (u : Int) :
    (s.sample u).SharesWith (w.sample u) := by
  cases s with
  | occurrences s =>
    exact Window.Alongside.sample Aggregates.chronicle DistinctTexts.chronicle h u
  | measured s => exact Window.Alongside.sample Aggregates.chronicle Metrics.chronicle h u

theorem SharesWith.taking (h : s.SharesWith w) (hw : w.Fits c start) (hf : s.Fits c start kind)
    {x : Recorded} (hx : 0 < x.count) :
    (s.taking x).SharesWith (w.modify x.time fun bucket => bucket.take x) := by
  cases hf with
  | occurrences window =>
    rw [taking_occurrences window]
    exact Window.Alongside.take Aggregates.chronicle DistinctTexts.chronicle h hw window hx
  | measured window samples weight =>
    rw [taking_measured window]
    exact Window.Alongside.take Aggregates.chronicle Metrics.chronicle h hw window hx

theorem SharesWith.retainPeople (h : s.SharesWith w) (hw : w.Fits c start)
    (hf : s.Fits c start kind) (keeps : Nat → Bool) :
    (s.retainPeople keeps).SharesWith (w.retain fun p => keeps p.person) := by
  cases hf with
  | occurrences window =>
    exact Window.Alongside.retain Aggregates.chronicle DistinctTexts.chronicle h hw window _
  | measured window samples weight =>
    exact Window.Alongside.retain Aggregates.chronicle Metrics.chronicle h hw window _

theorem SharesWith.retainAttributes (h : s.SharesWith w) (hw : w.Fits c start)
    (hf : s.Fits c start kind) (keeps : Nat → Bool) :
    (s.retainAttributes keeps).SharesWith (w.retain fun p => keeps p.attr) := by
  cases hf with
  | occurrences window =>
    exact Window.Alongside.retain Aggregates.chronicle DistinctTexts.chronicle h hw window _
  | measured window samples weight =>
    exact Window.Alongside.retain Aggregates.chronicle Metrics.chronicle h hw window _

theorem SharesWith.emptyBucket (h : s.SharesWith w) (hw : w.Fits c start)
    (hf : s.Fits c start kind) (u : Int) : (s.emptyBucket u).SharesWith (w.emptyBucket u) := by
  cases hf with
  | occurrences window =>
    exact Window.Alongside.emptyBucket Aggregates.chronicle DistinctTexts.chronicle h hw window u
  | measured window samples weight =>
    exact Window.Alongside.emptyBucket Aggregates.chronicle Metrics.chronicle h hw window u

theorem SharesWith.release (h : s.SharesWith w) (hw : w.Fits c start) (hf : s.Fits c start kind)
    (cutoff : Int) : (s.release cutoff).1.SharesWith (w.release cutoff).1 := by
  cases hf with
  | occurrences window =>
    exact Window.Alongside.release Aggregates.chronicle DistinctTexts.chronicle h hw window cutoff
  | measured window samples weight =>
    exact Window.Alongside.release Aggregates.chronicle Metrics.chronicle h hw window cutoff

theorem SharesWith.clear (h : s.SharesWith w) : s.clear.SharesWith w.clear := by
  cases s with
  | occurrences s => exact Window.Alongside.clear Aggregates.chronicle DistinctTexts.chronicle h
  | measured s => exact Window.Alongside.clear Aggregates.chronicle Metrics.chronicle h

theorem SharesWith.reset (h : s.SharesWith w) (hw : w.Fits c start) (hf : s.Fits c start kind)
    (u : Int) : (s.reset u).SharesWith (w.reset u) := by
  cases hf with
  | occurrences window =>
    exact Window.Alongside.reset Aggregates.chronicle DistinctTexts.chronicle h hw window u
  | measured window samples weight =>
    exact Window.Alongside.reset Aggregates.chronicle Metrics.chronicle h hw window u

end Series

/-! ## gatherers -/

namespace Gatherer
variable {g h : Gatherer} {kind : SeriesKind} {c : Config}

/-- the counts and the series tell the same records at each place -/
def SharesRecords (g : Gatherer) : Prop := g.series.SharesWith g.counts

theorem sharesRecords_new (hs : c.bucketLength.secs.toNat < 2 ^ 63) {t : Int}
    (hnew : new kind c t = .ok g) : g.SharesRecords := by
  have hv := valid_of_new hnew
  have hpos := Config.bucketSeconds_pos hv hs
  rw [new_eq hv] at hnew
  obtain rfl := Except.ok.inj hnew
  exact Series.sharesWith_new hpos t

theorem SharesRecords.of_alike (hr : g.SharesRecords) (e : Alike g h) : h.SharesRecords := by
  obtain ⟨pool, bounds, rfl⟩ := e
  exact hr

theorem SharesRecords.advance (hr : g.SharesRecords) (hs : g.Sound kind c) (t : Int)
    (counting : Bool) : (g.advance t counting).SharesRecords := by
  obtain ⟨x, -, e⟩ := advance_eq hs t counting
  rw [e]
  exact Series.SharesWith.startBucket hr hs.counts hs.series _ x

theorem SharesRecords.observe (hr : g.SharesRecords) (hs : g.Sound kind c) (t : Int) :
    (g.observe t).SharesRecords :=
  SharesRecords.advance (g := { g with earliest := some (g.earliest.elim t fun e => min e t) })
    hr ⟨hs.config_eq, hs.valid, hs.counts, hs.series⟩ t true

/-- a record that counts goes to the counts and to the series at once -/
theorem SharesRecords.record (hr : g.SharesRecords) (hs : g.Sound kind c) (e : Event) {t : Int}
    (p : Pair) (ht : g.counts.ring.contains t = true) : (g.record e t p).SharesRecords := by
  refine SharesRecords.of_alike ?_ (record_alike e p ht).symm
  cases hx : e.record? t p with
  | none => exact hr
  | some x => exact Series.SharesWith.taking hr hs.counts hs.series (Event.of_record? hx).2.2.2.2

theorem SharesRecords.add (hr : g.SharesRecords) (hs : g.Sound kind c) (d : Directory) (e : Event) :
    (g.add d e).2.SharesRecords := by
  have hadds := adds g d e
  generalize g.add d e = r at hadds
  cases hadds with
  | untimed => exact hr
  | refused => exact hr
  | late => exact hr
  | ignored => exact hr
  | noted => exact hr.observe hs _
  | @taken t p _ _ hin =>
    have hwide : (g.widen p).SharesRecords := hr
    exact (hwide.observe (hs.widen p) t).record ((hs.widen p).observe t) e p
      (contains_observe (hs.widen p) hin)

/-- every operation does to the series what it does to the counts -/
theorem SharesRecords.perform (hr : g.SharesRecords) (hs : g.Sound kind c) (op : Op) :
    (g.perform op).2.SharesRecords := by
  cases op with
  | add d e => exact hr.add hs d e
  | tick t =>
    show (g.tick t).2.SharesRecords
    unfold Gatherer.tick
    split
    · exact hr
    · exact hr.advance hs t true
  | sample t => exact Series.SharesWith.sample (hr.advance hs (g.lastCall t) true) _
  | skip t => exact hr.advance hs (g.lastCall t) false
  | restart t => exact Series.SharesWith.reset hr hs.counts hs.series _
  | recyclePeople ids =>
    exact Series.SharesWith.retainPeople hr hs.counts hs.series fun id => id ∉ ids
  | recycleAttributes ids =>
    exact Series.SharesWith.retainAttributes hr hs.counts hs.series fun id => id ∉ ids
  | removePeople lowest =>
    exact Series.SharesWith.retainPeople hr hs.counts hs.series fun id => id < lowest
  | removeAttributes lowest =>
    exact Series.SharesWith.retainAttributes hr hs.counts hs.series fun id => id < lowest
  | release cutoff => exact Series.SharesWith.release hr hs.counts hs.series cutoff
  | resetBucket t =>
    show (g.resetBucket t).2.SharesRecords
    unfold Gatherer.resetBucket
    split
    · exact Series.SharesWith.emptyBucket hr hs.counts hs.series t
    · exact hr
  | clear => exact Series.SharesWith.clear hr

theorem SharesRecords.run (hr : g.SharesRecords) (hs : g.Sound kind c) (ops : List Op) :
    (g.run ops).SharesRecords := by
  induction ops generalizing g with
  | nil => exact hr
  | cons op ops ih => exact ih (hr.perform hs op) (hs.perform op)

/-- in each bucket and each open span of a gatherer the counts are sound, and the series data is
there too, within the counts -/
def Coherent (g : Gatherer) : Prop :=
  match g.series with
  | .occurrences s => g.counts.Alongside (fun a d => a.Coherent ∧ d.Within a) s.window
  | .measured s => g.counts.Alongside (fun a m => a.Coherent ∧ m.Within a) s.window

theorem SharesRecords.coherent (hr : g.SharesRecords) : g.Coherent := by
  unfold SharesRecords Series.SharesWith at hr
  unfold Coherent
  split at hr
  · exact hr.mono fun _ _ => Shares.coherent_texts
  · exact hr.mono fun _ _ => Shares.coherent_metrics

/-- after every run the series data of each bucket and open span is within its counts -/
theorem coherent_run (hr : Reachable kind c g) (hs : c.bucketLength.secs.toNat < 2 ^ 63) :
    g.kind = kind ∧ g.Coherent := by
  refine ⟨(hr.sound hs).kind_eq, ?_⟩
  obtain ⟨time, g₀, ops, hnew, rfl⟩ := hr
  exact ((sharesRecords_new hs hnew).run (sound_new hs hnew) ops).coherent

/-- a measurement that was sampled into a span, and whose person was dropped from the bucket -/
theorem coherent_run_of_measured :
    let c : Config := { Config.default with
      latencyBuckets := 1, multiBucketLengths := [.ofSecs 600], features := [.mean] }
    let d : Directory := ⟨fun _ => .active, fun _ => .active⟩
    let e : Event := ⟨some 310, some 7, some 2, [1], some 3, none, [some "host"], false⟩
    ∃ g, new .metric c 300 = .ok g ∧
      (g.run [.add d e, .sample 300, .recyclePeople [7]]).Coherent ∧
      ((g.run [.add d e, .sample 300, .recyclePeople [7]]).counts.get? 0 600).isSome := by
  intro c d e
  have hvalid : c.fault? .metric = none := by decide
  have hnew := new_eq hvalid 300
  have h := coherent_run ⟨300, _, [.add d e, .sample 300, .recyclePeople [7]], hnew, rfl⟩
    (by decide)
  exact ⟨_, hnew, h.2, by decide +kernel⟩

end Gatherer

end EventBuckets
