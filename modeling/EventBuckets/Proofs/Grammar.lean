import EventBuckets.Proofs.Readers

/-!
# The grammar of documents

Which tags may stand where in a document, and which have to.  The strict grammar is that of the
documents that are written.  The other one is that of the documents that are read:

* the entries of counts, explicit nulls, influences and sample counts may have any tag, and the first
  three may hold an influence and a value although they need none;
* the bucket length, the sample counts, the parts of a bucket and the statistics of a pair may be
  missing;
* a level of a gatherer or of a series is not looked into if a later one has the same tag.

* `Rule`, `Shape`          a tag that a level may hold, and what a node with it may be;
* `Conforms`               nodes that are as rules say;
* `Grammar.document`       the rules of a document, `Grammar.aggregates`, `Grammar.ring` and so on those
                           of its parts;
* `conforms_of_restore`, `shape_of_ofNodes`
                           what has been read conforms to the rules that are not strict.
-/

set_option linter.unusedSectionVars false

namespace EventBuckets
open Node Restore

/-! ## rules -/

/-- what a node may be, its tag apart -/
abbrev Shape := Node → Bool

/-- a tag that a level may hold -/
structure Rule where
  tag : Tag
  shape : Shape
  /-- whether there has to be a node with the tag -/
  needed : Bool
  /-- whether any level will do where a later node has the tag too -/
  replaceable : Bool

namespace Rule

def may (t : Tag) (shape : Shape) : Rule := ⟨t, shape, false, false⟩

def must (t : Tag) (shape : Shape) : Rule := ⟨t, shape, true, false⟩

/-- a node is as a rule says, with later nodes after it -/
def Allows (r : Rule) (n : Node) (later : List Node) : Prop :=
  n.name = r.tag.name ∧
    (r.shape n = true ∨ (r.replaceable = true ∧ n.isText = false ∧ ∃ m ∈ later, m.name = n.name))

instance (r : Rule) (n : Node) (later : List Node) : Decidable (r.Allows n later) :=
  inferInstanceAs (Decidable (_ ∧ (_ ∨ (_ ∧ _ ∧ ∃ m ∈ later, m.name = n.name))))

end Rule

/-- each node is as some rule says -/
def Fit (rules : List Rule) : List Node → Prop
  | [] => True
  | n :: later => (∃ r ∈ rules, r.Allows n later) ∧ Fit rules later

instance decidableFit (rules : List Rule) : (nodes : List Node) → Decidable (Fit rules nodes)
  | [] => inferInstanceAs (Decidable True)
  | n :: later =>
    have := decidableFit rules later
    inferInstanceAs (Decidable ((∃ r ∈ rules, r.Allows n later) ∧ Fit rules later))

/-- the nodes of a level that is as rules say -/
structure Conforms (rules : List Rule) (nodes : List Node) : Prop where
  fit : Fit rules nodes
  needed : ∀ r ∈ rules, r.needed = true → ∃ n ∈ nodes, n.name = r.tag.name

instance (rules : List Rule) (nodes : List Node) : Decidable (Conforms rules nodes) :=
  decidable_of_iff (Fit rules nodes ∧ ∀ r ∈ rules, r.needed = true → ∃ n ∈ nodes, n.name = r.tag.name)
    ⟨fun h => ⟨h.1, h.2⟩, fun h => ⟨h.fit, h.needed⟩⟩

theorem fit_of_forall {rules : List Rule} {nodes : List Node}
    (h : ∀ n ∈ nodes, ∃ r ∈ rules, n.name = r.tag.name ∧ r.shape n = true) : Fit rules nodes := by
  induction nodes with
  | nil => trivial
  | cons n later ih =>
    obtain ⟨r, hr, hname, hshape⟩ := h n List.mem_cons_self
    exact ⟨⟨r, hr, hname, .inl hshape⟩, ih fun m hm => h m (List.mem_cons_of_mem _ hm)⟩

theorem Conforms.of_forall {rules : List Rule} {nodes : List Node}
    (h : ∀ n ∈ nodes, ∃ r ∈ rules, n.name = r.tag.name ∧ r.shape n = true)
    (hneeded : ∀ r ∈ rules, r.needed = true → ∃ n ∈ nodes, n.name = r.tag.name) :
    Conforms rules nodes :=
  ⟨fit_of_forall h, hneeded⟩

/-- nodes that have been read conform to rules that each step obeys -/
theorem Reads.conforms {σ : Type} {step : σ → Node → σ → Prop} {s t : σ} {nodes : List Node}
    {rules : List Rule} (h : Reads step s nodes t)
    (hstep : ∀ s n t, step s n t → ∃ r ∈ rules, n.name = r.tag.name ∧ r.shape n = true)
    (hneeded : ∀ r ∈ rules, r.needed = true → ∃ n ∈ nodes, n.name = r.tag.name) :
    Conforms rules nodes :=
  .of_forall (h.forall_mem hstep) hneeded

namespace Shape
variable {rules : List Rule} {n : Node} {t : Tag}

/-- a level -/
def level (rules : List Rule) : Shape := fun n => !n.isText && decide (Conforms rules n.held)

/-- a level that begins with a text with the tag `t` -/
def headed (t : Tag) (rules : List Rule) : Shape := fun n =>
  !n.isText && decide ((∃ first ∈ n.held.head?, first.name = t.name ∧ first.isText = true) ∧
    Conforms rules n.held.tail)

theorem level_iff : level rules n = true ↔ n.isText = false ∧ Conforms rules n.held := by
  simp [level]

theorem headed_iff : headed t rules n = true ↔ n.isText = false ∧
    (∃ first ∈ n.held.head?, first.name = t.name ∧ first.isText = true) ∧
      Conforms rules n.held.tail := by
  simp [headed]

end Shape

/-! ## the grammar -/

namespace Grammar

/-- entries, with any tag where the grammar is not strict -/
def entries (strict : Bool) (entry : Shape) : Shape :=
  .level (if strict then [.may .entry entry] else Tag.all.map fun t => .may t entry)

/-- an entry of a pair and of what else it needs -/
def pairEntry (strict : Bool) (more : List Tag) : Shape :=
  .level ((.pid :: .cid :: more).map (fun t => .must t isText) ++
    if strict then [] else [.may .influence isText, .may .value isText])

def aggregates (strict : Bool) : List Rule :=
  [⟨.counts, entries strict (pairEntry strict [.value]), strict, false⟩,
   ⟨.explicitNulls, entries strict (pairEntry strict []), strict, false⟩,
   ⟨.influencers,
    .level [.may .influenceField (entries strict (pairEntry strict [.influence, .value]))],
    strict, false⟩]

def texts : List Rule :=
  [.may .entry (.level [.must .pid isText, .must .cid isText, .may .text isText])]

def metrics (strict : Bool) : List Rule :=
  [.may .entry (.level ([.must .pid isText, .must .cid isText] ++
    [.measurements, .sum, .min, .max].map fun t => ⟨t, isText, strict, false⟩))]

def sampleCounts (strict : Bool) : Shape :=
  entries strict (.level [.must .pid isText, .must .value isText])

def ring (contents : List Rule) : Shape :=
  .level [.must .latestStart isText, .may .bucket (.headed .time contents)]

def spans (contents : List Rule) : Shape :=
  .level [.may .span (.level
    [.must .span isText, .may .spanStart isText, .may .bucket (.level contents)])]

def window (strict : Bool) (contents : List Rule) : List Rule :=
  [⟨.bucketQueue, ring contents, true, !strict⟩, ⟨.multiBucket, spans contents, true, !strict⟩]

def series (strict : Bool) : SeriesKind → List Rule
  | .eventRate => window strict texts
  | .metric => window strict (metrics strict) ++ [⟨.sampleCounts, sampleCounts strict, strict, false⟩]

def gatherer (strict : Bool) (kind : SeriesKind) : List Rule :=
  [⟨.bucketLength, isText, strict, false⟩, .must .bucketStart isText, .may .earliestTime isText]
    ++ window strict (aggregates strict)
    ++ [⟨.series, .level (series strict kind), true, !strict⟩]

def document (strict : Bool) (kind : SeriesKind) : List Rule :=
  [.must kind.tag (.level (gatherer strict kind))]

/-- entries that are not strict may have any tag of the table -/
theorem entries_of_reads {σ : Type} {step : σ → Node → σ → Prop} {s t : σ} {n : Node}
    {entry : Shape} (hn : n.isText = false) (h : Reads step s n.held t)
    (hstep : ∀ s m t, step s m t → (∃ t : Tag, m.name = t.name) ∧ entry m = true) :
    entries false entry n = true := by
  refine Shape.level_iff.mpr ⟨hn, h.conforms (fun s m t hm => ?_) ?_⟩
  · obtain ⟨⟨u, hu⟩, hentry⟩ := hstep s m t hm
    exact ⟨.may u entry, List.mem_map_of_mem (Tag.mem_all u), hu, hentry⟩
  · intro r hr hneeded
    obtain ⟨u, -, rfl⟩ := List.mem_map.mp hr
    cases hneeded

end Grammar

/-! ## buckets -/

namespace Aggregates
variable {n : Node} {nodes : List Node}

/-- a part of an entry is there if it has been read -/
theorem exists_of_readEntry {β : Type} {f : Entry → Option β} {t : Tag} {e : Entry} {b : β}
    (h : Yields (readEntry n) e) (hnone : f ⟨none, none, none, none⟩ = none)
    (hother : ∀ e m e', Yields (readField e m) e' → m.name ≠ t.name → f e' = f e)
    (hb : f e = some b) : ∃ m ∈ n.held, m.name = t.name :=
  (reads_of_yields (readEntry_spec h).2.2).exists_of_get hnone hother hb

/-- an entry of a pair has the tags that it needs, and no other than the four -/
theorem pairEntry_of_readEntry {e : Entry} {p : Pair} {more : List Tag}
    (h : Yields (readEntry n) e) (hpid : e.pid = some p.person) (hcid : e.cid = some p.attr)
    (hmore : ∀ t ∈ more, ∃ m ∈ n.held, m.name = t.name) :
    (∃ t : Tag, n.name = t.name) ∧ Grammar.pairEntry false more n = true := by
  obtain ⟨htag, hlevel, hfields⟩ := readEntry_spec h
  refine ⟨htag, Shape.level_iff.mpr ⟨hlevel, (reads_of_yields hfields).conforms
    (fun e m e' hm => ?_) fun r hr hneeded => ?_⟩⟩
  · obtain ⟨htext, ⟨t, ht, hname⟩, -⟩ := readField_spec hm
    simp only [List.mem_cons, List.not_mem_nil, or_false] at ht
    rcases ht with rfl | rfl | rfl | rfl
    · exact ⟨.must .pid isText, by simp, hname, htext⟩
    · exact ⟨.must .cid isText, by simp, hname, htext⟩
    · exact ⟨.may .influence isText, by simp, hname, htext⟩
    · exact ⟨.may .value isText, by simp, hname, htext⟩
  · rcases List.mem_append.mp hr with hr | hr
    · obtain ⟨t, ht, rfl⟩ := List.mem_map.mp hr
      rcases List.mem_cons.mp ht with rfl | ht
      · exact exists_of_readEntry (f := Entry.pid) h rfl
          (fun e m e' hm => (readField_spec hm).2.2.1) hpid
      · rcases List.mem_cons.mp ht with rfl | ht
        · exact exists_of_readEntry (f := Entry.cid) h rfl
            (fun e m e' hm => (readField_spec hm).2.2.2.1) hcid
        · exact hmore t ht
    · simp only [Bool.false_eq_true, if_false, List.mem_cons, List.not_mem_nil, or_false] at hr
      rcases hr with rfl | rfl <;> cases hneeded

theorem exists_value {e : Entry} {k : Nat} (h : Yields (readEntry n) e) (hk : e.value = some k) :
    ∃ m ∈ n.held, m.name = Tag.value.name :=
  exists_of_readEntry (f := Entry.value) h rfl
    (fun _ _ _ hm => (readField_spec hm).2.2.2.2.2) hk

theorem exists_influence {e : Entry} {x : String} (h : Yields (readEntry n) e)
    (hx : e.influence = some x) : ∃ m ∈ n.held, m.name = Tag.influence.name :=
  exists_of_readEntry (f := Entry.influence) h rfl
    (fun _ _ _ hm => (readField_spec hm).2.2.2.2.1) hx

theorem pairEntry_of_readCount {m m' : PairMap Nat} (h : Yields (readCount m n) m') :
    (∃ t : Tag, n.name = t.name) ∧ Grammar.pairEntry false [.value] n = true := by
  obtain ⟨e, p, k, he, hpid, hcid, hk, -⟩ := readCount_spec h
  exact pairEntry_of_readEntry he hpid hcid (by simpa using exists_value he hk)

theorem pairEntry_of_readNull {s s' : PairSet} (h : Yields (readNull s n) s') :
    (∃ t : Tag, n.name = t.name) ∧ Grammar.pairEntry false [] n = true := by
  obtain ⟨e, p, he, hpid, hcid, -⟩ := readNull_spec h
  exact pairEntry_of_readEntry he hpid hcid (by simp)

theorem pairEntry_of_readInfluence {f f' : InfluenceCounts} (h : Yields (readInfluence f n) f') :
    (∃ t : Tag, n.name = t.name) ∧ Grammar.pairEntry false [.influence, .value] n = true := by
  obtain ⟨e, p, x, k, he, hpid, hcid, hx, hk, -⟩ := readInfluence_spec h
  exact pairEntry_of_readEntry he hpid hcid
    (by simpa using ⟨exists_influence he hx, exists_value he hk⟩)

theorem conforms_of_restore {a : Aggregates} (h : Yields (restore nodes) a) :
    Conforms (Grammar.aggregates false) nodes := by
  refine (reads_of_yields h).conforms (fun a n a' hstep => ?_) fun r hr hneeded => ?_
  · obtain ⟨hlevel, ⟨hname, m, hm, -⟩ | ⟨hname, s, hs, -⟩ | ⟨hname, fields, hfields, -⟩⟩ :=
      readPart_cases hstep
    · exact ⟨_, List.mem_cons_self, hname, Grammar.entries_of_reads hlevel (reads_of_yields hm)
        fun _ _ _ => pairEntry_of_readCount⟩
    · exact ⟨_, List.mem_cons_of_mem _ List.mem_cons_self, hname,
        Grammar.entries_of_reads hlevel (reads_of_yields hs) fun _ _ _ => pairEntry_of_readNull⟩
    · refine ⟨_, List.mem_cons_of_mem _ (List.mem_cons_of_mem _ List.mem_cons_self), hname,
        Shape.level_iff.mpr ⟨hlevel, (reads_of_yields hfields).conforms (fun s n s' hn => ?_) ?_⟩⟩
      · obtain ⟨hname, hlevel, f, hf, -⟩ := readInfluenceField_spec hn
        exact ⟨_, List.mem_cons_self, hname, Grammar.entries_of_reads hlevel (reads_of_yields hf)
          fun _ _ _ => pairEntry_of_readInfluence⟩
      · simp [Rule.may]
  · simp only [Grammar.aggregates, List.mem_cons, List.not_mem_nil, or_false] at hr
    rcases hr with rfl | rfl | rfl <;> cases hneeded

end Aggregates

/-! ## series -/

theorem DistinctTexts.conforms_of_restore {nodes : List Node} {d : DistinctTexts}
    (h : Yields (restore nodes) d) : Conforms Grammar.texts nodes := by
  refine (reads_of_yields h).conforms (fun d n d' hstep => ?_) (by simp [Grammar.texts, Rule.may])
  obtain ⟨hname, hlevel, e, p, he, hpid, hcid, -⟩ := readEntry_spec hstep
  have hreads := reads_of_yields he
  refine ⟨_, List.mem_cons_self, hname, Shape.level_iff.mpr ⟨hlevel,
    hreads.conforms (fun e m e' hm => ?_) ?_⟩⟩
  · obtain ⟨htext, ⟨t, ht, hname⟩, -⟩ := readField_spec hm
    simp only [List.mem_cons, List.not_mem_nil, or_false] at ht
    rcases ht with rfl | rfl | rfl
    · exact ⟨.must .pid isText, by simp, hname, htext⟩
    · exact ⟨.must .cid isText, by simp, hname, htext⟩
    · exact ⟨.may .text isText, by simp, hname, htext⟩
  · have hpid' := hreads.exists_of_get (f := Entry.pid) (u := .pid) rfl
      (fun _ _ _ hm => (readField_spec hm).2.2.1) hpid
    have hcid' := hreads.exists_of_get (f := Entry.cid) (u := .cid) rfl
      (fun _ _ _ hm => (readField_spec hm).2.2.2) hcid
    simpa [Rule.must, Rule.may] using ⟨hpid', hcid'⟩

theorem Metrics.conforms_of_restore {nodes : List Node} {m : Metrics}
    (h : Yields (restore nodes) m) : Conforms (Grammar.metrics false) nodes := by
  refine (reads_of_ok h.ofExcept).conforms (fun m n m' hstep => ?_)
    (by simp [Grammar.metrics, Rule.may])
  obtain ⟨hname, hlevel, e, p, he, hpid, hcid, -⟩ := readEntry_spec hstep
  have hreads := reads_of_ok he
  refine ⟨_, List.mem_cons_self, hname, Shape.level_iff.mpr ⟨hlevel,
    hreads.conforms (fun e m e' hm => ?_) ?_⟩⟩
  · obtain ⟨htext, ⟨t, ht, hname⟩, -⟩ := readField_spec hm
    rw [List.mem_cons, List.mem_cons] at ht
    rcases ht with rfl | rfl | ht
    · exact ⟨.must .pid isText, by simp, hname, htext⟩
    · exact ⟨.must .cid isText, by simp, hname, htext⟩
    · exact ⟨⟨t, isText, false, false⟩, List.mem_append_right _ (List.mem_map_of_mem ht), hname,
        htext⟩
  · have hpid' := hreads.exists_of_get (f := Entry.pid) (u := .pid) rfl
      (fun _ _ _ hm => (readField_spec hm).2.2.1) hpid
    have hcid' := hreads.exists_of_get (f := Entry.cid) (u := .cid) rfl
      (fun _ _ _ hm => (readField_spec hm).2.2.2) hcid
    simpa [Rule.must, Rule.may] using ⟨hpid', hcid'⟩

theorem SampleCounts.shape_of_readNodes {n : Node} {s s' : SampleCounts} (hlevel : n.isText = false)
    (h : s.readNodes n.held = .ok s') : Grammar.sampleCounts false n = true := by
  refine Grammar.entries_of_reads hlevel (reads_of_ok h) fun s m s' hstep => ?_
  obtain ⟨htag, hlevel, e, person, value, he, hperson, hvalue, -⟩ := readEntry_spec hstep
  have hreads := reads_of_ok he
  refine ⟨htag, Shape.level_iff.mpr ⟨hlevel, hreads.conforms (fun e m e' hm => ?_) ?_⟩⟩
  · obtain ⟨htext, ⟨t, ht, hname⟩, -⟩ := readField_spec hm
    simp only [List.mem_cons, List.not_mem_nil, or_false] at ht
    rcases ht with rfl | rfl
    · exact ⟨.must .pid isText, by simp, hname, htext⟩
    · exact ⟨.must .value isText, by simp, hname, htext⟩
  · have hpid' := hreads.exists_of_get (f := Entry.pid) (u := .pid) rfl
      (fun _ _ _ hm => (readField_spec hm).2.2.1) hperson
    have hvalue' := hreads.exists_of_get (f := Entry.value) (u := .value) rfl
      (fun _ _ _ hm => (readField_spec hm).2.2.2) hvalue
    simpa [Rule.must] using ⟨hpid', hvalue'⟩

/-! ## windows -/

section
variable {α : Type} [PairData α] {rules : List Rule}
  (hα : ∀ {nodes : List Node} {a : α}, Yields (restore nodes) a → Conforms rules nodes)
include hα

theorem Ring.shape_of_ofNodes {latency : Nat} {length : Int} {n : Node} {r : Ring α}
    (hlevel : n.isText = false) (h : Yields (Ring.ofNodes latency length n.held) r) :
    Grammar.ring rules n = true := by
  obtain ⟨s, hs, h⟩ := h.exists_of_bind
  obtain rfl := of_required h.eq_ok
  have hreads := reads_of_yields hs
  refine Shape.level_iff.mpr ⟨hlevel, hreads.conforms (fun s m s' hm => ?_) ?_⟩
  · rcases readNode_cases hm with ⟨hname, t, ht, -⟩ | ⟨hname, hlevel, r, r', -, hread, -⟩
    · exact ⟨.must .latestStart isText, by simp, hname, isText_of_parse ht⟩
    · obtain ⟨first, rest, time, item, hheld, hfirst, htime, -, hitem, -⟩ := readBucket_spec hread
      refine ⟨.may .bucket (.headed .time rules), by simp, hname,
        Shape.headed_iff.mpr ⟨hlevel, ⟨first, ?_, hfirst, isText_of_parse htime⟩, ?_⟩⟩
      · rw [hheld]
        rfl
      · rw [hheld]
        exact hα hitem
  · have hlatest := hreads.exists_of_get (f := Option.map fun _ => ()) (u := .latestStart) rfl
      (fun s m s' hm hne => ?_) rfl
    · simpa [Rule.must, Rule.may] using hlatest
    · rcases readNode_cases hm with ⟨hname, -⟩ | ⟨-, -, r, r', rfl, -, rfl⟩
      · exact (hne hname).elim
      · rfl

theorem Spans.shape_of_ofNodes {lengths : List Int} {n : Node} {s : Spans α}
    (hlevel : n.isText = false) (h : Yields (Spans.ofNodes lengths n.held) s) :
    Grammar.spans rules n = true := by
  obtain ⟨state, hstate, -⟩ := h.exists_of_bind
  refine Shape.level_iff.mpr ⟨hlevel, (reads_of_yields hstate).conforms
    (fun state m state' hm => ?_) (by simp [Rule.may])⟩
  obtain ⟨hname, hlevel, f, length, span, hf, hlength, -⟩ := readSpan_cases hm
  have hreads := reads_of_yields hf
  refine ⟨_, List.mem_cons_self, hname, Shape.level_iff.mpr ⟨hlevel,
    hreads.conforms (fun f m f' hm => ?_) ?_⟩⟩
  · rcases readField_cases hm with ⟨hname, x, hx, -⟩ | ⟨hname, x, hx, -⟩ | ⟨hname, hlevel, a, ha, -⟩
    · exact ⟨.must .span isText, by simp, hname, isText_of_parse hx⟩
    · exact ⟨.may .spanStart isText, by simp, hname, isText_of_parse hx⟩
    · exact ⟨.may .bucket (.level rules), by simp, hname, Shape.level_iff.mpr ⟨hlevel, hα ha⟩⟩
  · have hspan := hreads.exists_of_get (f := Fields.length) (u := .span) rfl (fun f m f' hm hne => ?_)
      hlength
    · simpa [Rule.must, Rule.may] using hspan
    · rcases readField_cases hm with ⟨hname, -⟩ | ⟨-, x, -, rfl⟩ | ⟨-, -, a, -, rfl⟩
      · exact (hne hname).elim
      · rfl
      · rfl

/-- both levels of a window that has been read -/
theorem Window.shape_of_ofLevels {c : Config} {l : Window.Levels} {w : Window α}
    (h : Yields (Window.ofLevels c l) w) :
    (∃ inner, l.ring = some inner ∧ ∀ t : Tag, Grammar.ring rules (t.level inner) = true) ∧
      ∃ inner, l.spans = some inner ∧ ∀ t : Tag, Grammar.spans rules (t.level inner) = true := by
  obtain ⟨ringNodes, hringNodes, h⟩ := h.exists_of_bind
  obtain ⟨ring, hring, h⟩ := h.exists_of_bind
  obtain ⟨spanNodes, hspanNodes, h⟩ := h.exists_of_bind
  obtain ⟨spans, hspans, -⟩ := h.exists_of_bind
  exact ⟨⟨ringNodes, of_required hringNodes.eq_ok, fun t => Ring.shape_of_ofNodes hα rfl hring⟩,
    ⟨spanNodes, of_required hspanNodes.eq_ok, fun t => Spans.shape_of_ofNodes hα rfl hspans⟩⟩

end

end EventBuckets
