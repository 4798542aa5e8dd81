import EventBuckets.Proofs.Grammar

/-!
# Known tags

What has been read has tags that are in the table, at every depth, for the rules of the grammar let
no other tags in.

* `Shape.Known`, `Rule.Known`   a shape and a rule under which all tags are known;
* `Conforms.allKnown`           the tags of nodes that conform to such rules are known;
* `SampleCounts.allKnown_of_readNodes`, `Window.allKnown_of_ofLevels`
                                so are those of sample counts and of windows that have been read.
-/

set_option linter.unusedSectionVars false

namespace EventBuckets
open Node Restore

theorem Node.allKnown_iff {n : Node} :
    AllKnown [n] ↔ Tag.ofName? n.name ≠ none ∧ AllKnown n.held := by
  cases n with
  | leaf tag text => simp [AllKnown, subnodesOf, subnodes, held, name]
  | level tag nodes => simp [AllKnown, subnodesOf, subnodes, held, name]

/-! ## rules -/

/-- a node with a tag in the table and this shape has no other tags within it either -/
def Shape.Known (s : Shape) : Prop := ∀ n, s n = true → AllKnown n.held

/-- a rule under which all tags are known -/
def Rule.Known (r : Rule) : Prop := r.replaceable = false ∧ r.shape.Known

section
variable {rules : List Rule} {nodes : List Node}

theorem Fit.allKnown (h : Fit rules nodes) (hrules : ∀ r ∈ rules, r.Known) : AllKnown nodes := by
  refine allKnown_of_forall ?_
  induction nodes with
  | nil => exact fun n hn => (List.not_mem_nil hn).elim
  | cons n later ih =>
    obtain ⟨⟨r, hr, hname, hshape⟩, hlater⟩ := h
    intro m hm
    rcases List.mem_cons.mp hm with rfl | hm
    · obtain ⟨hreplaceable, hknown⟩ := hrules r hr
      rw [hreplaceable] at hshape
      refine allKnown_iff.mpr ⟨?_, hknown m (hshape.resolve_right fun h => nomatch h.1)⟩
      rw [hname, Tag.ofName?_name]
      exact nofun
    · exact ih hlater m hm

theorem Conforms.allKnown (h : Conforms rules nodes) (hrules : ∀ r ∈ rules, r.Known) :
    AllKnown nodes :=
  h.fit.allKnown hrules

theorem known_isText : Shape.Known isText := by
  intro n hn
  cases n with
  | leaf tag text => exact allKnown_nil
  | level tag nodes => cases hn

theorem known_level (h : ∀ r ∈ rules, r.Known) : (Shape.level rules).Known :=
  fun _ hn => (Shape.level_iff.mp hn).2.allKnown h

theorem known_headed {t : Tag} (h : ∀ r ∈ rules, r.Known) : (Shape.headed t rules).Known := by
  intro n hn
  obtain ⟨-, ⟨first, hfirst, hname, htext⟩, hrest⟩ := Shape.headed_iff.mp hn
  cases hheld : n.held with
  | nil => exact allKnown_nil
  | cons m rest =>
    rw [hheld] at hfirst hrest
    obtain rfl := Option.some.inj hfirst
    refine allKnown_cons (allKnown_iff.mpr ⟨?_, known_isText _ htext⟩) (hrest.allKnown h)
    rw [hname, Tag.ofName?_name]
    exact nofun

end

/-! ## the grammar -/

namespace Grammar

theorem known_entries {entry : Shape} (strict : Bool) (h : entry.Known) :
    (entries strict entry).Known := by
  refine known_level fun r hr => ?_
  cases strict with
  | true =>
    obtain rfl := List.mem_singleton.mp hr
    exact ⟨rfl, h⟩
  | false =>
    obtain ⟨t, -, rfl⟩ := List.mem_map.mp hr
    exact ⟨rfl, h⟩

theorem known_pairEntry (strict : Bool) (more : List Tag) : (pairEntry strict more).Known := by
  refine known_level fun r hr => ?_
  rcases List.mem_append.mp hr with hr | hr
  · obtain ⟨t, -, rfl⟩ := List.mem_map.mp hr
    exact ⟨rfl, known_isText⟩
  · cases strict with
    | true => cases hr
    | false =>
      simp only [Bool.false_eq_true, if_false, List.mem_cons, List.not_mem_nil, or_false] at hr
      rcases hr with rfl | rfl <;> exact ⟨rfl, known_isText⟩

theorem known_aggregates (strict : Bool) : ∀ r ∈ aggregates strict, r.Known := by
  have hentries (more : List Tag) : (entries strict (pairEntry strict more)).Known :=
    known_entries strict (known_pairEntry strict more)
  simp only [aggregates, List.forall_mem_cons]
  exact ⟨⟨rfl, hentries _⟩, ⟨rfl, hentries _⟩, ⟨rfl, known_level
    (by simpa [Rule.Known, Rule.may] using hentries _)⟩, by simp⟩

theorem known_texts : ∀ r ∈ texts, r.Known := by
  simp only [texts, List.forall_mem_cons]
  refine ⟨⟨rfl, known_level ?_⟩, by simp⟩
  simp [Rule.Known, Rule.may, Rule.must, known_isText]

theorem known_metrics (strict : Bool) : ∀ r ∈ metrics strict, r.Known := by
  simp only [metrics, List.forall_mem_cons]
  refine ⟨⟨rfl, known_level ?_⟩, by simp⟩
  simp [Rule.Known, Rule.must, known_isText]

theorem known_sampleCounts (strict : Bool) : (sampleCounts strict).Known :=
  known_entries strict <| known_level <| by simp [Rule.Known, Rule.must, known_isText]

variable {contents : List Rule} (h : ∀ r ∈ contents, r.Known)
include h

theorem known_ring : (ring contents).Known :=
  known_level <| by simp [Rule.Known, Rule.must, Rule.may, known_isText, known_headed h]

theorem known_spans : (spans contents).Known := by
  refine known_level ?_
  simp only [List.forall_mem_cons]
  refine ⟨⟨rfl, known_level ?_⟩, by simp⟩
  simp [Rule.Known, Rule.must, Rule.may, known_isText, known_level h]

end Grammar

/-! ## readings -/

theorem SampleCounts.allKnown_of_readNodes {s s' : SampleCounts} {nodes : List Node}
    (h : s.readNodes nodes = .ok s') : AllKnown nodes :=
  Grammar.known_sampleCounts false (Tag.sampleCounts.level nodes)
    (SampleCounts.shape_of_readNodes rfl h)

/-- both levels of a window that has been read -/
theorem Window.allKnown_of_ofLevels {α : Type} [PairData α] {rules : List Rule}
    (hα : ∀ {nodes : List Node} {a : α}, Yields (restore nodes) a → Conforms rules nodes)
    (hrules : ∀ r ∈ rules, r.Known) {c : Config} {l : Window.Levels} {w : Window α}
    (h : Yields (Window.ofLevels c l) w) :
    (∀ inner, l.ring = some inner → AllKnown inner) ∧
      ∀ inner, l.spans = some inner → AllKnown inner := by
  obtain ⟨⟨ringNodes, hring, hringShape⟩, ⟨spanNodes, hspans, hspansShape⟩⟩ :=
    Window.shape_of_ofLevels hα h
  refine ⟨fun inner hinner => ?_, fun inner hinner => ?_⟩
  · obtain rfl := Option.some.inj (hring.symm.trans hinner)
    exact Grammar.known_ring hrules _ (hringShape .bucketQueue)
  · obtain rfl := Option.some.inj (hspans.symm.trans hinner)
    exact Grammar.known_spans hrules _ (hspansShape .multiBucket)

end EventBuckets
