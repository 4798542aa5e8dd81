import EventBuckets.Proofs.Outline

/-!
# Documents and their grammar

A document that is written conforms to the strict grammar, and a document that is restored to the one
that is not strict.

* `Slots.conforms`             a reader that keeps levels for later, and the rules of what it reads;
* `Series.conforms_of_ofNodes`, `Snapshot.conforms_of_ofDocument`
                               a series and a document that have been read;
* `Window.conforms_nodes`, `Snapshot.conforms_document`
                               a window and a document that are written;
* `restored_conforms`          both for gatherers.
-/

set_option linter.unusedSectionVars false

namespace EventBuckets
open Node Restore

/-! ## reading -/

namespace Slots
variable {σ : Type} {read : σ → Node → Except RestoreError σ} {tags : List Tag}
  (slots : Slots read tags) {nodes : List Node} {rules : List Rule} {s s' : σ}
include slots

/-- the contents of a level have to be right only if no later level has the same tag -/
theorem fit (h : nodes.foldlM read s = .ok s')
    (hkept : ∀ t ∈ tags, ∃ r ∈ rules, r.tag = t ∧ r.replaceable = true ∧
      ∀ inner, slots.get t s' = some inner → r.shape (t.level inner) = true)
    (hother : ∀ u n s s', n.tag? = .ok u → slots.readOther u n s = .ok s' →
      ∃ r ∈ rules, n.name = r.tag.name ∧ r.shape n = true) : Fit rules nodes := by
  induction nodes generalizing s with
  | nil => trivial
  | cons n later ih =>
    rw [List.foldlM_cons] at h
    obtain ⟨v, hv, htail⟩ := Except.exists_of_bind h
    refine ⟨?_, ih htail⟩
    rcases slots.read_cases hv with ⟨t, ht, inner, rfl, rfl⟩ | ⟨u, hu, -, hv⟩
    · obtain ⟨r, hr, rfl, hreplaceable, hshape⟩ := hkept t ht
      refine ⟨r, hr, rfl, ?_⟩
      by_cases hlater : ∃ m ∈ later, m.name = r.tag.name
      · exact .inr ⟨hreplaceable, rfl, hlater⟩
      · have hget := slots.get_of_not_mem ht (fun m hm hname => hlater ⟨m, hm, hname⟩) htail
        rw [slots.get_set _ ht, if_pos rfl] at hget
        exact .inl (hshape inner hget)
    · obtain ⟨r, hr, hname, hshape⟩ := hother u n s v hu hv
      exact ⟨r, hr, hname, .inl hshape⟩

/-- what has been read conforms to rules that let each kept level be replaced -/
theorem conforms (h : nodes.foldlM read s = .ok s') (hs : ∀ t ∈ tags, slots.get t s = none)
    (hkept : ∀ t ∈ tags, ∃ r ∈ rules, r.tag = t ∧ r.replaceable = true ∧
      ∃ inner, slots.get t s' = some inner ∧ r.shape (t.level inner) = true)
    (hother : ∀ u n s s', n.tag? = .ok u → slots.readOther u n s = .ok s' →
      ∃ r ∈ rules, n.name = r.tag.name ∧ r.shape n = true)
    (hneeded : ∀ r ∈ rules, r.needed = true → r.tag ∉ tags → ∃ n ∈ nodes, n.name = r.tag.name) :
    Conforms rules nodes := by
  refine ⟨slots.fit h (fun t ht => ?_) hother, fun r hr hr' => ?_⟩
  · obtain ⟨r, hr, htag, hreplaceable, inner, hinner, hshape⟩ := hkept t ht
    refine ⟨r, hr, htag, hreplaceable, fun inner' hinner' => ?_⟩
    obtain rfl := Option.some.inj (hinner.symm.trans hinner')
    exact hshape
  · by_cases ht : r.tag ∈ tags
    · obtain ⟨-, -, -, -, inner, hinner, -⟩ := hkept r.tag ht
      exact (reads_of_ok h).exists_of_get (hs r.tag ht)
        (fun s n t hstep hn => slots.get_read ht hn hstep) hinner
    · exact hneeded r hr hr' ht

end Slots

theorem Series.conforms_of_ofNodes {kind : SeriesKind} {c : Config} {nodes : List Node}
    {s : Series} (h : Yields (Series.ofNodes kind c nodes) s) :
    Conforms (Grammar.series false kind) nodes := by
  cases kind with
  | eventRate =>
    obtain ⟨occurrences, h, -⟩ := h.exists_of_bind
    obtain ⟨levels, hlevels, h⟩ := h.exists_of_bind
    obtain ⟨window, h, -⟩ := h.exists_of_bind
    obtain ⟨⟨ring, hring, hringShape⟩, spans, hspans, hspansShape⟩ :=
      Window.shape_of_ofLevels DistinctTexts.conforms_of_restore h
    refine Occurrences.slots.conforms hlevels.eq_ok (fun t ht => ?_) (fun t ht => ?_)
      (fun _ _ _ _ _ h => by cases h) ?_
    · fin_cases ht <;> rfl
    · fin_cases ht
      · exact ⟨_, List.mem_cons_self, rfl, rfl, ring, hring, hringShape _⟩
      · exact ⟨_, List.mem_cons_of_mem _ List.mem_cons_self, rfl, rfl, spans, hspans,
          hspansShape _⟩
    · simp [Grammar.series, Grammar.window]
  | metric =>
    obtain ⟨measured, h, -⟩ := h.exists_of_bind
    obtain ⟨parts, hparts, h⟩ := h.exists_of_bind
    obtain ⟨window, h, -⟩ := h.exists_of_bind
    obtain ⟨⟨ring, hring, hringShape⟩, spans, hspans, hspansShape⟩ :=
      Window.shape_of_ofLevels Metrics.conforms_of_restore h
    refine Measured.slots.conforms hparts.eq_ok (fun t ht => ?_) (fun t ht => ?_)
      (fun u n s s' hu h => ?_) ?_
    · fin_cases ht <;> rfl
    · fin_cases ht
      · exact ⟨_, List.mem_cons_self, rfl, rfl, ring, hring, hringShape _⟩
      · exact ⟨_, List.mem_cons_of_mem _ List.mem_cons_self, rfl, rfl, spans, hspans,
          hspansShape _⟩
    · simp only [Measured.slots] at h
      split at h
      · obtain ⟨inner, hinner, h⟩ := Except.exists_of_bind h
        obtain ⟨samples, hsamples, -⟩ := Except.exists_of_bind h
        rw [← held_of_children hinner] at hsamples
        exact ⟨_, List.mem_append_right _ List.mem_cons_self, name_of_tag? hu,
          SampleCounts.shape_of_readNodes (isText_of_children hinner) hsamples⟩
      · cases h
    · simp [Grammar.series, Grammar.window]

theorem Snapshot.conforms_of_ofDocument {kind : SeriesKind} {c : Config} {d : Document}
    {s : Snapshot} (h : Yields (ofDocument kind c d) s) :
    Conforms (Grammar.document false kind) d.nodes := by
  obtain ⟨nodes, hnodes, h⟩ := h.exists_of_bind
  obtain ⟨p, hp, h⟩ := h.exists_of_bind
  obtain ⟨start, hstart, h⟩ := h.exists_of_bind
  obtain ⟨counts, hcounts, h⟩ := h.exists_of_bind
  obtain ⟨inner, hinner, h⟩ := h.exists_of_bind
  obtain ⟨series, hseries, -⟩ := h.exists_of_bind
  obtain ⟨⟨ring, hring, hringShape⟩, spans, hspans, hspansShape⟩ :=
    Window.shape_of_ofLevels Aggregates.conforms_of_restore hcounts
  have hseriesShape : Shape.level (Grammar.series false kind) (Tag.series.level inner) = true :=
    Shape.level_iff.mpr ⟨rfl, Series.conforms_of_ofNodes hseries⟩
  have hbody : Conforms (Grammar.gatherer false kind) nodes := by
    refine (slots c.bucketSeconds).conforms hp.eq_ok (fun t ht => ?_) (fun t ht => ?_)
      (fun u n s s' hu h => ?_) ?_
    · fin_cases ht <;> rfl
    · fin_cases ht
      · exact ⟨⟨.bucketQueue, Grammar.ring (Grammar.aggregates false), true, true⟩,
          by simp [Grammar.gatherer, Grammar.window], rfl, rfl, ring, hring, hringShape _⟩
      · exact ⟨⟨.multiBucket, Grammar.spans (Grammar.aggregates false), true, true⟩,
          by simp [Grammar.gatherer, Grammar.window], rfl, rfl, spans, hspans, hspansShape _⟩
      · exact ⟨_, List.mem_append_right _ List.mem_cons_self, rfl, rfl, inner,
          of_required hinner.eq_ok, hseriesShape⟩
    · simp only [slots] at h
      have hname := name_of_tag? hu
      split at h
      · obtain ⟨x, hx, -⟩ := Except.exists_of_bind h
        exact ⟨⟨.bucketLength, isText, false, false⟩, by simp [Grammar.gatherer], hname,
          isText_of_parse hx⟩
      · obtain ⟨x, hx, -⟩ := Except.exists_of_bind h
        exact ⟨.must .bucketStart isText, by simp [Grammar.gatherer], hname, isText_of_parse hx⟩
      · obtain ⟨x, hx, -⟩ := Except.exists_of_bind h
        exact ⟨.may .earliestTime isText, by simp [Grammar.gatherer], hname, isText_of_parse hx⟩
      · cases h
    · have hlast : lastTime? .bucketStart nodes = some start :=
        (start_of_readParts hp.eq_ok).symm.trans (of_required hstart.eq_ok)
      obtain ⟨n, hn, -⟩ := Option.bind_eq_some_iff.mp hlast
      simpa [Grammar.gatherer, Grammar.window, Rule.must, Rule.may] using ⟨n, of_last? hn⟩
  rw [nodes_of_body hnodes.eq_ok]
  have hlevel : Shape.level (Grammar.gatherer false kind) (kind.tag.level nodes) = true :=
    Shape.level_iff.mpr ⟨rfl, hbody⟩
  refine ⟨fit_of_forall ?_, ?_⟩
  · simpa [Grammar.document, Rule.must] using ⟨rfl, hlevel⟩
  · simp [Grammar.document, Rule.must, Tag.level, name]

/-! ## writing -/

theorem Shape.level_of_conforms {rules : List Rule} {nodes : List Node} (t : Tag)
    (h : Conforms rules nodes) : Shape.level rules (t.level nodes) = true :=
  Shape.level_iff.mpr ⟨rfl, h⟩

theorem Grammar.entries_of_forall {entry : Shape} {t : Tag} {nodes : List Node}
    (h : ∀ n ∈ nodes, n.name = Tag.entry.name ∧ entry n = true) :
    entries true entry (t.level nodes) = true :=
  Shape.level_iff.mpr ⟨rfl, .of_forall (fun n hn => ⟨_, List.mem_cons_self, h n hn⟩)
    (by simp [Rule.may])⟩

/-- texts with tags, one for each -/
theorem conforms_of_texts {rules : List Rule} {nodes : List Node} (tags : List Tag)
    (hnodes : nodes.map name = tags.map Tag.name) (htext : ∀ n ∈ nodes, n.isText = true)
    (hrules : ∀ t ∈ tags, ∃ r ∈ rules, r.tag = t ∧ r.shape = isText)
    (hneeded : ∀ r ∈ rules, r.tag ∈ tags) : Conforms rules nodes := by
  refine .of_forall (fun n hn => ?_) fun r hr _ => ?_
  · have hname := List.mem_map_of_mem (f := name) hn
    rw [hnodes] at hname
    obtain ⟨t, ht, hname⟩ := List.mem_map.mp hname
    obtain ⟨r, hr, rfl, hshape⟩ := hrules t ht
    exact ⟨r, hr, hname.symm, hshape ▸ htext n hn⟩
  · have hname := List.mem_map_of_mem (f := Tag.name) (hneeded r hr)
    rw [← hnodes] at hname
    exact List.mem_map.mp hname

theorem Aggregates.pairEntry_of_nodes {p : Pair} {more : List Tag} (nodes : List Node)
    (hnodes : nodes.map name = more.map Tag.name) (htext : ∀ n ∈ nodes, n.isText = true) :
    Grammar.pairEntry true more (Tag.entry.level (pairNodes p ++ nodes)) = true := by
  refine Shape.level_iff.mpr ⟨rfl, conforms_of_texts (.pid :: .cid :: more) ?_ ?_ ?_ ?_⟩
  · show (pairNodes p ++ nodes).map name = _
    rw [List.map_append, hnodes]
    rfl
  · show ∀ n ∈ pairNodes p ++ nodes, n.isText = true
    simpa [pairNodes, Tag.nat, Tag.leaf, isText] using htext
  · exact fun t ht => ⟨.must t isText, List.mem_append_left _ (List.mem_map_of_mem ht), rfl, rfl⟩
  · intro r hr
    rcases List.mem_append.mp hr with hr | hr
    · obtain ⟨t, ht, rfl⟩ := List.mem_map.mp hr
      exact ht
    · cases hr

theorem Aggregates.conforms_nodes (a : Aggregates) : Conforms (Grammar.aggregates true) a.nodes := by
  refine .of_forall (fun n hn => ?_) fun r hr _ => ?_
  · simp only [nodes, List.mem_cons, List.not_mem_nil, or_false] at hn
    rcases hn with rfl | rfl | rfl
    · refine ⟨_, List.mem_cons_self, rfl, Grammar.entries_of_forall fun n hn => ?_⟩
      obtain ⟨⟨p, k⟩, -, rfl⟩ := List.mem_map.mp hn
      exact ⟨rfl, pairEntry_of_nodes _ rfl (by simp [Tag.nat, Tag.leaf, isText])⟩
    · refine ⟨_, List.mem_cons_of_mem _ List.mem_cons_self, rfl,
        Grammar.entries_of_forall fun n hn => ?_⟩
      obtain ⟨p, -, rfl⟩ := List.mem_map.mp hn
      exact ⟨rfl, pairEntry_of_nodes [] rfl (by simp)⟩
    · refine ⟨_, List.mem_cons_of_mem _ (List.mem_cons_of_mem _ List.mem_cons_self), rfl,
        Shape.level_of_conforms _ (.of_forall (fun n hn => ?_) (by simp [Rule.may]))⟩
      obtain ⟨f, -, rfl⟩ := List.mem_map.mp hn
      refine ⟨_, List.mem_cons_self, rfl, Grammar.entries_of_forall fun n hn => ?_⟩
      obtain ⟨⟨m, k⟩, -, rfl⟩ := List.mem_map.mp hn
      exact ⟨rfl, pairEntry_of_nodes _ rfl (by simp [Tag.nat, Tag.leaf, isText])⟩
  · simp only [Grammar.aggregates, List.mem_cons, List.not_mem_nil, or_false] at hr
    rcases hr with rfl | rfl | rfl <;> simp [nodes, Tag.level, name]

theorem DistinctTexts.conforms_nodes (d : DistinctTexts) : Conforms Grammar.texts d.nodes := by
  have hentry (p : Pair) (texts : TextSet) :
      Conforms [.must .pid isText, .must .cid isText, .may .text isText]
        (Aggregates.pairNodes p ++ texts.toList.map Tag.text.leaf) := by
    refine .of_forall (fun m hm => ?_) (by simp [Rule.must, Rule.may, Aggregates.pairNodes, Tag.nat,
      Tag.leaf, name])
    rcases List.mem_append.mp hm with hm | hm
    · simp only [Aggregates.pairNodes, List.mem_cons, List.not_mem_nil, or_false] at hm
      rcases hm with rfl | rfl
      · exact ⟨.must .pid isText, by simp, rfl, rfl⟩
      · exact ⟨.must .cid isText, by simp, rfl, rfl⟩
    · obtain ⟨text, -, rfl⟩ := List.mem_map.mp hm
      exact ⟨.may .text isText, by simp, rfl, rfl⟩
  refine .of_forall (fun n hn => ?_) (by simp [Grammar.texts, Rule.may])
  obtain ⟨⟨p, texts⟩, -, rfl⟩ := List.mem_map.mp hn
  exact ⟨_, List.mem_cons_self, rfl, Shape.level_of_conforms .entry (hentry p texts)⟩

theorem Metrics.conforms_nodes (m : Metrics) : Conforms (Grammar.metrics true) m.nodes := by
  have hentry (p : Pair) (s : Summary) :
      Conforms ([.must .pid isText, .must .cid isText] ++
        [.measurements, .sum, .min, .max].map fun t => ⟨t, isText, true, false⟩)
        (Aggregates.pairNodes p ++ [Tag.measurements.nat s.count, Tag.sum.leaf (joinFloats s.sum),
          Tag.min.leaf (joinFloats s.min), Tag.max.leaf (joinFloats s.max)]) := by
    refine conforms_of_texts [.pid, .cid, .measurements, .sum, .min, .max] rfl ?_ ?_ ?_
    · simp [Aggregates.pairNodes, Tag.nat, Tag.leaf, isText]
    · simp [Rule.must]
    · simp [Rule.must]
  refine .of_forall (fun n hn => ?_) (by simp [Grammar.metrics, Rule.may])
  obtain ⟨⟨p, s⟩, -, rfl⟩ := List.mem_map.mp hn
  exact ⟨_, List.mem_cons_self, rfl, Shape.level_of_conforms .entry (hentry p s)⟩

theorem SampleCounts.shape_of_nodes (s : SampleCounts) :
    Grammar.sampleCounts true (Tag.sampleCounts.level s.nodes) = true := by
  refine Grammar.entries_of_forall fun n hn => ?_
  obtain ⟨⟨person, x⟩, -, rfl⟩ := List.mem_map.mp hn
  refine ⟨rfl, Shape.level_iff.mpr ⟨rfl, conforms_of_texts [.pid, .value] rfl ?_ ?_ ?_⟩⟩
  · simp [Tag.level, Tag.nat, Tag.leaf, held, isText]
  · simp [Rule.must]
  · simp [Rule.must]

section
variable {α : Type} [PairData α] {rules : List Rule} (hα : ∀ a : α, Conforms rules (persist a))
include hα

theorem Ring.shape_of_nodes (r : Ring α) (t : Tag) : Grammar.ring rules (t.level r.nodes) = true := by
  refine Shape.level_iff.mpr ⟨rfl, .of_forall (fun n hn => ?_) ?_⟩
  · rcases List.mem_cons.mp hn with rfl | hn
    · exact ⟨.must .latestStart isText, by simp, rfl, rfl⟩
    · obtain ⟨⟨start, a⟩, -, rfl⟩ := List.mem_map.mp hn
      have hbucket : Shape.headed .time rules
          (Tag.bucket.level (Tag.time.int start :: persist a)) = true :=
        Shape.headed_iff.mpr ⟨rfl, ⟨_, rfl, rfl, rfl⟩, hα a⟩
      exact ⟨.may .bucket (.headed .time rules), by simp, rfl, hbucket⟩
  · simp [Rule.must, Rule.may, Ring.nodes, Tag.level, Tag.int, Tag.leaf, held, name]

theorem Spans.shape_of_nodes (s : Spans α) (t : Tag) :
    Grammar.spans rules (t.level s.nodes) = true := by
  have hspan (length : Int) (span : Option (OpenSpan α)) :
      Conforms [.must .span isText, .may .spanStart isText, .may .bucket (.level rules)]
        (spanNodes length span) := by
    refine .of_forall (fun m hm => ?_)
      (by simp [Rule.must, Rule.may, spanNodes, Tag.int, Tag.leaf, name])
    rcases List.mem_cons.mp hm with rfl | hm
    · exact ⟨.must .span isText, by simp, rfl, rfl⟩
    · cases span with
      | none => cases hm
      | some o =>
        simp only [List.mem_cons, List.not_mem_nil, or_false] at hm
        rcases hm with rfl | rfl
        · exact ⟨.may .spanStart isText, by simp, rfl, rfl⟩
        · exact ⟨.may .bucket (.level rules), by simp, rfl,
            Shape.level_of_conforms .bucket (hα o.contents)⟩
  refine Shape.level_of_conforms t (.of_forall (fun n hn => ?_) (by simp [Rule.may]))
  obtain ⟨⟨length, span⟩, -, rfl⟩ := List.mem_map.mp hn
  exact ⟨_, List.mem_cons_self, rfl, Shape.level_of_conforms .span (hspan length span)⟩

theorem Window.conforms_nodes (w : Window α) : Conforms (Grammar.window true rules) w.nodes := by
  refine .of_forall (fun n hn => ?_) fun r hr _ => ?_
  · simp only [Window.nodes, List.mem_cons, List.not_mem_nil, or_false] at hn
    rcases hn with rfl | rfl
    · exact ⟨_, List.mem_cons_self, rfl, Ring.shape_of_nodes hα w.ring _⟩
    · exact ⟨_, List.mem_cons_of_mem _ List.mem_cons_self, rfl, Spans.shape_of_nodes hα w.spans _⟩
  · simp only [Grammar.window, List.mem_cons, List.not_mem_nil, or_false] at hr
    rcases hr with rfl | rfl <;> simp [Window.nodes, Tag.level, name]

end

section
variable {rules rules' : List Rule} {nodes nodes' : List Node}

theorem Fit.mono (h : Fit rules nodes) (hsub : ∀ r ∈ rules, r ∈ rules') : Fit rules' nodes := by
  induction nodes with
  | nil => trivial
  | cons n later ih =>
    obtain ⟨⟨r, hr, hn⟩, hlater⟩ := h
    exact ⟨⟨r, hsub r hr, hn⟩, ih hlater⟩

theorem Fit.append (h : Fit rules nodes) (h' : Fit rules' nodes') :
    Fit (rules ++ rules') (nodes ++ nodes') := by
  induction nodes with
  | nil => exact h'.mono fun r hr => List.mem_append_right _ hr
  | cons n later ih =>
    obtain ⟨⟨r, hr, hname, hshape⟩, hlater⟩ := h
    refine ⟨⟨r, List.mem_append_left _ hr, hname, hshape.imp_right ?_⟩, ih hlater⟩
    exact fun ⟨hreplaceable, hlevel, m, hm, hmn⟩ =>
      ⟨hreplaceable, hlevel, m, List.mem_append_left _ hm, hmn⟩

theorem Conforms.append (h : Conforms rules nodes) (h' : Conforms rules' nodes') :
    Conforms (rules ++ rules') (nodes ++ nodes') := by
  refine ⟨h.fit.append h'.fit, fun r hr hneeded => ?_⟩
  rcases List.mem_append.mp hr with hr | hr
  · obtain ⟨n, hn, hname⟩ := h.needed r hr hneeded
    exact ⟨n, List.mem_append_left _ hn, hname⟩
  · obtain ⟨n, hn, hname⟩ := h'.needed r hr hneeded
    exact ⟨n, List.mem_append_right _ hn, hname⟩

end

theorem Conforms.singleton {r : Rule} {n : Node} (hname : n.name = r.tag.name)
    (hshape : r.shape n = true) : Conforms [r] [n] :=
  .of_forall (by simpa using ⟨hname, hshape⟩) (by simp [hname])

theorem Series.conforms_nodes (s : Series) : Conforms (Grammar.series true s.kind) s.nodes := by
  cases s with
  | occurrences s => exact Window.conforms_nodes DistinctTexts.conforms_nodes s.window
  | measured s =>
    exact (Window.conforms_nodes Metrics.conforms_nodes s.window).append
      (.singleton rfl s.samples.shape_of_nodes)

theorem Snapshot.conforms_document (s : Snapshot) :
    Conforms (Grammar.document true s.kind) s.document.nodes := by
  have hclock : Conforms
      [⟨.bucketLength, isText, true, false⟩, .must .bucketStart isText, .may .earliestTime isText]
      ([Tag.bucketLength.int s.length, Tag.bucketStart.int s.start] ++
        s.earliest.toList.map Tag.earliestTime.int) := by
    refine .of_forall (fun n hn => ?_) (by simp [Rule.must, Rule.may, Tag.int, Tag.leaf, name])
    rcases List.mem_append.mp hn with hn | hn
    · simp only [List.mem_cons, List.not_mem_nil, or_false] at hn
      rcases hn with rfl | rfl
      · exact ⟨_, List.mem_cons_self, rfl, rfl⟩
      · exact ⟨.must .bucketStart isText, by simp, rfl, rfl⟩
    · obtain ⟨t, -, rfl⟩ := List.mem_map.mp hn
      exact ⟨.may .earliestTime isText, by simp, rfl, rfl⟩
  have hseries : Conforms [⟨.series, .level (Grammar.series true s.kind), true, false⟩]
      [Tag.series.level s.series.nodes] :=
    .singleton rfl (Shape.level_of_conforms _ s.series.conforms_nodes)
  have hnodes : Conforms (Grammar.gatherer true s.kind) s.nodes :=
    (hclock.append (Window.conforms_nodes Aggregates.conforms_nodes s.counts)).append hseries
  exact .singleton rfl (Shape.level_of_conforms _ hnodes)

namespace Gatherer
variable {g : Gatherer} {kind : SeriesKind} {c : Config} {d : Document}

/-- a document that is restored conforms to the grammar that is not strict, where one that a gatherer
writes conforms to the strict one -/
theorem restored_conforms (hr : restore kind c d = .ok g) :
    Conforms (Grammar.document false kind) d.nodes ∧
      ∀ g : Gatherer, Conforms (Grammar.document true g.series.kind) g.document.nodes := by
  obtain ⟨-, s, pool, hread, rfl⟩ := exists_of_restore hr
  exact ⟨Snapshot.conforms_of_ofDocument hread, fun g => g.snapshot.conforms_document⟩

/-- a document without a bucket length, with an end of the window among the counts, a value among the
explicit nulls and a sum in a queue that a later one replaces -/
theorem restored_conforms_of_misplaced_tags :
    let d : Document := ⟨[Tag.eventRateGatherer.level
      [Tag.bucketStart.int 0,
       Tag.bucketQueue.level [Tag.sum.int 0],
       Tag.bucketQueue.level [Tag.latestStart.int 0, Tag.bucket.level
         [Tag.time.int 0,
          Tag.counts.level
            [Tag.latestStart.level (Aggregates.pairNodes ⟨7, 2⟩ ++ [Tag.value.nat 5])],
          Tag.explicitNulls.level
            [Tag.entry.level (Aggregates.pairNodes ⟨7, 3⟩ ++ [Tag.value.nat 5])]]],
       Tag.multiBucket.level [],
       Tag.series.level [Tag.bucketQueue.level [Tag.latestStart.int 0], Tag.multiBucket.level []]]]⟩
    (∃ g, restore .eventRate .default d = .ok g) ∧
      Conforms (Grammar.document false .eventRate) d.nodes ∧
      ¬Conforms (Grammar.document true .eventRate) d.nodes := by
  intro d
  have hread : (restore .eventRate .default d).toOption.isSome = true := by decide +kernel
  cases hr : restore .eventRate .default d with
  | error e =>
    rw [hr] at hread
    cases hread
  | ok g => exact ⟨⟨g, rfl⟩, (restored_conforms hr).1, by decide +kernel⟩

end Gatherer

end EventBuckets
