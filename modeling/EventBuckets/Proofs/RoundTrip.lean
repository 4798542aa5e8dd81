import EventBuckets.Bucket.Metrics
import EventBuckets.Bucket.Texts
import EventBuckets.Proofs.Folds
import EventBuckets.Proofs.NumberText
import EventBuckets.Proofs.Sound

/-!
# Buckets written and read back

* `Restore.Gives`       reading succeeds with a value, whatever the pool;
* `gives_foldlM_map`    nodes written one by one are read one by one;
* `rebuild`             a map whose entries are inserted again;
* `Pair.Writable`, `Aggregates.Writable`, `Summary.Writable`, ...
                        the numbers fit their words, and no float is no number;
* `Writable`            data of buckets that reads back where it is writable;
* `SampleCounts.readNodes_nodes`
                        the sample counts read back.
-/

set_option linter.unusedSectionVars false

namespace EventBuckets

/-! ## reading -/

namespace Restore
variable {α β : Type}

/-- reading succeeds with a value, whatever texts are kept already -/
def Gives (x : Restore α) (a : α) : Prop := ∀ s, ∃ s', x.startingWith s = (.ok a, s')

theorem gives_pure (a : α) : Gives (pure a) a := fun s => ⟨s, rfl⟩

theorem Gives.bind {x : Restore α} {a : α} {f : α → Restore β} {b : β} (hx : Gives x a)
    (hf : Gives (f a) b) : Gives (x >>= f) b := by
  intro s
  obtain ⟨s', hs'⟩ := hx s
  obtain ⟨s'', hs''⟩ := hf s'
  refine ⟨s'', ?_⟩
  unfold startingWith at *
  rw [ExceptT.run_bind, StateT.run_bind, hs']
  exact hs''

theorem gives_intern (text : String) : Gives (intern text) () := fun s => ⟨s.intern text, rfl⟩

/-- a step that cannot fail -/
theorem ok_bind (a : α) (f : α → Restore β) :
    (liftM (Except.ok a : Except RestoreError α) : Restore α) >>= f = f a := rfl

theorem gives_ofExcept (a : α) : Gives (ofExcept (.ok a)) a := fun s => ⟨s, rfl⟩

/-- nodes written one by one are read one by one -/
theorem gives_foldlM_map (write : β → Node) (read : α → Node → Restore α) (take : α → β → α)
    (bs : List β) (P : α → Prop) {a : α} (ha : P a)
    (h : ∀ a, ∀ b ∈ bs, P a → Gives (read a (write b)) (take a b) ∧ P (take a b)) :
    Gives ((bs.map write).foldlM read a) (bs.foldl take a) := by
  induction bs generalizing a with
  | nil => exact gives_pure a
  | cons b bs ih =>
    obtain ⟨hb, hP⟩ := h a b List.mem_cons_self ha
    rw [List.map_cons, List.foldlM_cons]
    exact hb.bind (ih hP fun a x hx => h a x (List.mem_cons_of_mem _ hx))

end Restore

theorem except_ok_bind {α β : Type} (a : α) (f : α → Except RestoreError β) :
    (Except.ok a : Except RestoreError α) >>= f = f a := rfl

theorem foldlM_map_ok {α β : Type} (write : β → Node) (read : α → Node → Except RestoreError α)
    (take : α → β → α) (bs : List β) (h : ∀ a, ∀ b ∈ bs, read a (write b) = .ok (take a b)) (a : α) :
    (bs.map write).foldlM read a = .ok (bs.foldl take a) := by
  induction bs generalizing a with
  | nil => rfl
  | cons b bs ih =>
    rw [List.map_cons, List.foldlM_cons, h a b List.mem_cons_self]
    exact ih (fun a x hx => h a x (List.mem_cons_of_mem _ hx)) _

/-! ## nodes -/

section Nodes
variable (t u : Tag)

@[simp] theorem tag?_leaf (text : String) : (t.leaf text).tag? = .ok t := by
  simp [Tag.leaf, Node.tag?, Node.name]

@[simp] theorem tag?_level (nodes : List Node) : (t.level nodes).tag? = .ok t := by
  simp [Tag.level, Node.tag?, Node.name]

@[simp] theorem tag?_nat (n : Nat) : (t.nat n).tag? = .ok t := tag?_leaf t _

@[simp] theorem tag?_int (n : Int) : (t.int n).tag? = .ok t := tag?_leaf t _

@[simp] theorem text_leaf (text : String) : (t.leaf text).text u = .ok text := rfl

@[simp] theorem children_level (nodes : List Node) : (t.level nodes).children u = .ok nodes := rfl

theorem parse_leaf {α : Type} {read : String → Option α} {text : String} {a : α}
    (h : read text = some a) : Node.parse read u (t.leaf text) = .ok a := by
  unfold Node.parse
  simp only [text_leaf, except_ok_bind, h]

theorem word_nat {n : Nat} (h : n < 2 ^ 64) : (t.nat n).word u = .ok n :=
  parse_leaf t u (readWord_toString h)

/-- whether a time is a signed number of 64 bits -/
def IsTime (t : Int) : Prop := -2 ^ 63 ≤ t ∧ t < 2 ^ 63

instance (t : Int) : Decidable (IsTime t) := inferInstanceAs (Decidable (_ ∧ _))

theorem time_int {n : Int} (h : IsTime n) : (t.int n).time u = .ok n :=
  parse_leaf t u (readTime_toString h.1 h.2)

theorem float_leaf {x : Binary64} (h : x.isNaN = false) :
    (t.leaf (floatText x)).float u = .ok x :=
  parse_leaf t u (readFloat_floatText h)

theorem floats_leaf {xs : List Binary64} (h : ∀ x ∈ xs, x.isNaN = false) :
    (t.leaf (joinFloats xs)).floats u = .ok xs :=
  parse_leaf t u (readFloats_joinFloats h)

end Nodes

/-! ## maps -/

section Maps
variable {κ β : Type} [Ord κ] [Std.TransOrd κ] [Std.LawfulEqOrd κ] [DecidableEq κ]

/-- the entries of a map, inserted into a map that has no further key -/
theorem rebuild (m : Std.ExtTreeMap κ β compare) {base : Std.ExtTreeMap κ β compare}
    (hbase : ∀ k, base.contains k = true → m.contains k = true) :
    m.toList.foldl (fun acc e => acc.insert e.1 e.2) base = m := by
  rw [← Std.ExtTreeMap.insertMany_list_eq_foldl]
  -- a key of the map has its only entry inserted, and any other key is in neither
  apply Std.ExtTreeMap.ext_getElem?
  intro k
  cases hk : m[k]? with
  | some v =>
    exact Std.ExtTreeMap.getElem?_insertMany_list_of_mem
      (Std.LawfulEqOrd.compare_eq_iff_eq.mpr rfl) m.distinct_keys_toList
      (Std.ExtTreeMap.mem_toList_iff_getElem?_eq_some.mpr hk)
  | none =>
    have hm : m.contains k = false := by
      rw [Std.ExtTreeMap.contains_eq_isSome_getElem?, hk]
      rfl
    have hb : base.contains k = false := by
      by_contra h
      have := hbase k (Bool.eq_true_of_not_eq_false h)
      rw [hm] at this
      cases this
    have hkeys : (m.toList.map Prod.fst).contains k = false := by
      rw [Std.ExtTreeMap.map_fst_toList_eq_keys, List.contains_eq_mem, decide_eq_false_iff_not,
        Std.ExtTreeMap.mem_keys, Std.ExtTreeMap.mem_iff_contains, hm]
      exact Bool.false_ne_true
    rw [Std.ExtTreeMap.getElem?_insertMany_list_of_contains_eq_false hkeys]
    rwa [Std.ExtTreeMap.contains_eq_isSome_getElem?, Option.isSome_eq_false_iff,
      Option.isNone_iff_eq_none] at hb

theorem rebuild_set (s : Std.ExtTreeSet κ compare) :
    s.toList.foldl (fun acc k => acc.insert k) ∅ = s := by
  apply Std.ExtTreeSet.ext_mem
  intro k
  rw [mem_foldl_insert, Std.ExtTreeSet.mem_toList]
  simp

end Maps

/-! ## sample counts -/

namespace SampleCounts

/-- the ids fit a word, and the numbers are numbers -/
def Writable (s : SampleCounts) : Prop :=
  ∀ e ∈ s.byPerson.toList, e.1 < 2 ^ 64 ∧ e.2.isNaN = false

instance (s : SampleCounts) : Decidable s.Writable :=
  inferInstanceAs (Decidable (∀ e ∈ s.byPerson.toList, _))

theorem readEntry_node (s : SampleCounts) {person : Nat} {x : Binary64} (hp : person < 2 ^ 64)
    (hx : x.isNaN = false) :
    s.readEntry (Tag.entry.level [Tag.pid.nat person, Tag.value.leaf (floatText x)]) =
      .ok (s.set person x) := by
  have hpid (e : Entry) : readField e (Tag.pid.nat person) = .ok { e with pid := some person } := by
    simp only [readField, tag?_nat, except_ok_bind, word_nat _ _ hp]
    rfl
  have hvalue (e : Entry) :
      readField e (Tag.value.leaf (floatText x)) = .ok { e with value := some x } := by
    simp only [readField, tag?_leaf, except_ok_bind, float_leaf _ _ hx]
    rfl
  simp only [readEntry, tag?_level, except_ok_bind, children_level, List.foldlM_cons, hpid, hvalue]
  rfl

/-- sample counts read back where none of them is a zero -/
theorem readNodes_nodes {s : SampleCounts} (hw : s.Writable) (hz : s.Proper) :
    empty.readNodes s.nodes = .ok s := by
  have hentries : s.entries = s.byPerson.toList := by
    apply List.filter_eq_self.mpr
    intro e he
    rw [hz e.1 e.2 (Std.ExtTreeMap.mem_toList_iff_getElem?_eq_some.mp he)]
    rfl
  have hread := foldlM_map_ok
    (fun e => Tag.entry.level [Tag.pid.nat e.1, Tag.value.leaf (floatText e.2)]) readEntry
    (fun s e => s.set e.1 e.2) s.entries (fun a e he => by
      rw [hentries] at he
      obtain ⟨hp, hx⟩ := hw e he
      exact readEntry_node a hp hx) empty
  refine hread.trans (congrArg Except.ok ?_)
  rw [hentries]
  have hset (es : List (Nat × Binary64)) (hes : ∀ e ∈ es, e.2.isZero = false)
      (m : Std.ExtTreeMap Nat Binary64 compare) :
      es.foldl (fun s e => s.set e.1 e.2) (SampleCounts.mk m) =
        ⟨es.foldl (fun m e => m.insert e.1 e.2) m⟩ := by
    induction es generalizing m with
    | nil => rfl
    | cons e es ih =>
      have hne : e.2 ≠ 0 := by
        intro h
        have := hes e List.mem_cons_self
        rw [h] at this
        exact absurd this (by decide)
      rw [List.foldl_cons, List.foldl_cons, ← ih fun x hx => hes x (List.mem_cons_of_mem _ hx)]
      congr 1
      exact if_neg hne
  refine (hset _ (fun e he => ?_) ∅).trans ?_
  · exact hz e.1 e.2 (Std.ExtTreeMap.mem_toList_iff_getElem?_eq_some.mp he)
  · rw [rebuild _ (by simp)]

end SampleCounts

/-! ## statistics -/

/-- both ids fit a word -/
def Pair.Writable (p : Pair) : Prop := p.person < 2 ^ 64 ∧ p.attr < 2 ^ 64

instance (p : Pair) : Decidable p.Writable := inferInstanceAs (Decidable (_ ∧ _))

/-- the number of measurements fits a word, and all floats are numbers -/
structure Summary.Writable (s : Summary) : Prop where
  count : s.count < 2 ^ 64
  sum : ∀ x ∈ s.sum, x.isNaN = false
  min : ∀ x ∈ s.min, x.isNaN = false
  max : ∀ x ∈ s.max, x.isNaN = false

instance (s : Summary) : Decidable s.Writable :=
  decidable_of_iff (s.count < 2 ^ 64 ∧ (∀ x ∈ s.sum, x.isNaN = false) ∧
    (∀ x ∈ s.min, x.isNaN = false) ∧ ∀ x ∈ s.max, x.isNaN = false)
    ⟨fun ⟨count, sum, min, max⟩ => ⟨count, sum, min, max⟩,
      fun ⟨count, sum, min, max⟩ => ⟨count, sum, min, max⟩⟩

namespace Metrics

/-- all pairs and all statistics are writable -/
def Writable (m : Metrics) : Prop := ∀ e ∈ m.byPair.toList, e.1.Writable ∧ e.2.Writable

instance (m : Metrics) : Decidable m.Writable :=
  inferInstanceAs (Decidable (∀ e ∈ m.byPair.toList, _))

theorem readEntry_node (m : Metrics) {p : Pair} {s : Summary} (hp : p.Writable) (hs : s.Writable) :
    m.readEntry (Tag.entry.level <| Aggregates.pairNodes p ++
      [Tag.measurements.nat s.count, Tag.sum.leaf (joinFloats s.sum),
       Tag.min.leaf (joinFloats s.min), Tag.max.leaf (joinFloats s.max)]) =
      .ok ⟨m.byPair.insert p s⟩ := by
  have hpid (e : Entry) :
      readField e (Tag.pid.nat p.person) = .ok { e with pid := some p.person } := by
    simp only [readField, tag?_nat, except_ok_bind, word_nat _ _ hp.1]
    rfl
  have hcid (e : Entry) : readField e (Tag.cid.nat p.attr) = .ok { e with cid := some p.attr } := by
    simp only [readField, tag?_nat, except_ok_bind, word_nat _ _ hp.2]
    rfl
  have hcount (e : Entry) : readField e (Tag.measurements.nat s.count) =
      .ok { e with stats := { e.stats with count := s.count } } := by
    simp only [readField, tag?_nat, except_ok_bind, word_nat _ _ hs.count]
    rfl
  have hsum (e : Entry) : readField e (Tag.sum.leaf (joinFloats s.sum)) =
      .ok { e with stats := { e.stats with sum := s.sum } } := by
    simp only [readField, tag?_leaf, except_ok_bind, floats_leaf _ _ hs.sum]
    rfl
  have hmin (e : Entry) : readField e (Tag.min.leaf (joinFloats s.min)) =
      .ok { e with stats := { e.stats with min := s.min } } := by
    simp only [readField, tag?_leaf, except_ok_bind, floats_leaf _ _ hs.min]
    rfl
  have hmax (e : Entry) : readField e (Tag.max.leaf (joinFloats s.max)) =
      .ok { e with stats := { e.stats with max := s.max } } := by
    simp only [readField, tag?_leaf, except_ok_bind, floats_leaf _ _ hs.max]
    rfl
  simp only [readEntry, tag?_level, except_ok_bind, children_level, Aggregates.pairNodes,
    List.cons_append, List.nil_append, List.foldlM_cons, hpid, hcid, hcount, hsum, hmin, hmax]
  rfl

theorem ofNodes_nodes {m : Metrics} (hw : m.Writable) : ofNodes m.nodes = .ok m := by
  have hread := foldlM_map_ok
    (fun e => Tag.entry.level <| Aggregates.pairNodes e.1 ++
      [Tag.measurements.nat e.2.count, Tag.sum.leaf (joinFloats e.2.sum),
       Tag.min.leaf (joinFloats e.2.min), Tag.max.leaf (joinFloats e.2.max)])
    readEntry (fun m e => ⟨m.byPair.insert e.1 e.2⟩) m.byPair.toList (fun a e he => by
      obtain ⟨hp, hs⟩ := hw e he
      exact readEntry_node a hp hs) ∅
  refine hread.trans (congrArg Except.ok ?_)
  have hfold : m.byPair.toList.foldl (fun m e => Metrics.mk (m.byPair.insert e.1 e.2)) ∅ =
      Metrics.mk (m.byPair.toList.foldl (fun m e => m.insert e.1 e.2) ∅) :=
    List.foldl_hom Metrics.mk fun _ _ => rfl
  rw [hfold, rebuild _ (by simp)]

end Metrics

/-! ## counts -/

namespace Aggregates
open Restore

/-- all ids and counts fit a word -/
structure Writable (a : Aggregates) : Prop where
  counts : ∀ e ∈ a.counts.toList, e.1.Writable ∧ e.2 < 2 ^ 64
  nulls : ∀ p ∈ a.nulls.toList, p.Writable
  influencers : ∀ f ∈ a.influencers, ∀ e ∈ f.toList, e.1.pair.Writable ∧ e.2 < 2 ^ 64

instance (a : Aggregates) : Decidable a.Writable :=
  decidable_of_iff ((∀ e ∈ a.counts.toList, e.1.Writable ∧ e.2 < 2 ^ 64) ∧
    (∀ p ∈ a.nulls.toList, p.Writable) ∧
    ∀ f ∈ a.influencers, ∀ e ∈ f.toList, e.1.pair.Writable ∧ e.2 < 2 ^ 64)
    ⟨fun ⟨counts, nulls, influencers⟩ => ⟨counts, nulls, influencers⟩,
      fun ⟨counts, nulls, influencers⟩ => ⟨counts, nulls, influencers⟩⟩

theorem readField_pid (e : Entry) {n : Nat} (h : n < 2 ^ 64) :
    readField e (Tag.pid.nat n) = pure { e with pid := some n } := by
  simp only [readField, tag?_nat, ok_bind, word_nat _ _ h]

theorem readField_cid (e : Entry) {n : Nat} (h : n < 2 ^ 64) :
    readField e (Tag.cid.nat n) = pure { e with cid := some n } := by
  simp only [readField, tag?_nat, ok_bind, word_nat _ _ h]

theorem readField_value (e : Entry) {n : Nat} (h : n < 2 ^ 64) :
    readField e (Tag.value.nat n) = pure { e with value := some n } := by
  simp only [readField, tag?_nat, ok_bind, word_nat _ _ h]

theorem gives_readField_influence (e : Entry) (text : String) :
    Gives (readField e (Tag.influence.leaf text)) { e with influence := some text } := by
  simp only [readField, tag?_leaf, ok_bind, text_leaf]
  exact (gives_intern text).bind (gives_pure _)

/-- the fields of a pair come first -/
theorem readEntry_pairNodes {p : Pair} (hp : p.Writable) (rest : List Node) :
    readEntry (Tag.entry.level (pairNodes p ++ rest)) =
      rest.foldlM readField ⟨some p.person, some p.attr, none, none⟩ := by
  simp only [readEntry, tag?_level, ok_bind, children_level, pairNodes, List.cons_append,
    List.nil_append, List.foldlM_cons, readField_pid _ hp.1, readField_cid _ hp.2, pure_bind]

theorem gives_readCount (counts : PairMap Nat) {p : Pair} {n : Nat} (hp : p.Writable)
    (hn : n < 2 ^ 64) :
    Gives (readCount counts (Tag.entry.level (pairNodes p ++ [Tag.value.nat n])))
      (counts.insert p n) := by
  unfold readCount
  rw [readEntry_pairNodes hp]
  simp only [List.foldlM_cons, List.foldlM_nil, readField_value _ hn, pure_bind]
  exact gives_pure _

theorem gives_readNull (nulls : PairSet) {p : Pair} (hp : p.Writable) :
    Gives (readNull nulls (Tag.entry.level (pairNodes p))) (nulls.insert p) := by
  have h := readEntry_pairNodes hp []
  rw [List.append_nil] at h
  unfold readNull
  rw [h]
  exact gives_pure _

theorem gives_readInfluence (field : InfluenceCounts) {m : Mention} {n : Nat}
    (hp : m.pair.Writable) (hn : n < 2 ^ 64) :
    Gives (readInfluence field (Tag.entry.level
      (pairNodes m.pair ++ [Tag.influence.leaf m.text, Tag.value.nat n]))) (field.insert m n) := by
  unfold readInfluence
  rw [readEntry_pairNodes hp]
  simp only [List.foldlM_cons, List.foldlM_nil, readField_value _ hn, bind_assoc, pure_bind]
  exact (gives_readField_influence _ m.text).bind (gives_pure _)

theorem gives_readInfluenceField (fields : List InfluenceCounts) {f : InfluenceCounts}
    (hf : ∀ e ∈ f.toList, e.1.pair.Writable ∧ e.2 < 2 ^ 64) :
    Gives (readInfluenceField fields (Tag.influenceField.level (f.toList.map fun (m, n) =>
      Tag.entry.level (pairNodes m.pair ++ [Tag.influence.leaf m.text, Tag.value.nat n]))))
      (fields ++ [f]) := by
  unfold readInfluenceField
  simp only [tag?_level, ok_bind, children_level]
  rw [if_neg (by decide)]
  have hread := gives_foldlM_map
    (fun (m, n) => Tag.entry.level
      (pairNodes m.pair ++ [Tag.influence.leaf m.text, Tag.value.nat n]))
    readInfluence (fun acc e => acc.insert e.1 e.2) f.toList (fun _ => True) (a := ∅) trivial
    fun acc e he _ => by
      obtain ⟨hp, hn⟩ := hf e he
      exact ⟨gives_readInfluence acc hp hn, trivial⟩
  rw [rebuild _ (by simp)] at hread
  exact hread.bind (gives_pure _)

theorem gives_counts {counts : PairMap Nat}
    (h : ∀ e ∈ counts.toList, e.1.Writable ∧ e.2 < 2 ^ 64) (a : Aggregates)
    (ha : a.counts = ∅) :
    Gives (readPart a (Tag.counts.level (counts.toList.map fun (p, n) =>
      Tag.entry.level (pairNodes p ++ [Tag.value.nat n])))) { a with counts } := by
  have hread := gives_foldlM_map
    (fun (p, n) => Tag.entry.level (pairNodes p ++ [Tag.value.nat n])) readCount
    (fun acc e => acc.insert e.1 e.2) counts.toList (fun _ => True) (a := ∅) trivial
    fun acc e he _ => by
      obtain ⟨hp, hn⟩ := h e he
      exact ⟨gives_readCount acc hp hn, trivial⟩
  rw [rebuild _ (by simp)] at hread
  simp only [readPart, tag?_level, ok_bind, children_level, ha]
  exact hread.bind (gives_pure _)

theorem gives_nulls {nulls : PairSet} (h : ∀ p ∈ nulls.toList, p.Writable) (a : Aggregates)
    (ha : a.nulls = ∅) :
    Gives (readPart a (Tag.explicitNulls.level (nulls.toList.map fun p =>
      Tag.entry.level (pairNodes p)))) { a with nulls } := by
  have hread := gives_foldlM_map (fun p => Tag.entry.level (pairNodes p)) readNull
    (fun acc p => acc.insert p) nulls.toList (fun _ => True) (a := ∅) trivial fun acc p hp _ =>
      ⟨gives_readNull acc (h p hp), trivial⟩
  rw [rebuild_set] at hread
  simp only [readPart, tag?_level, ok_bind, children_level, ha]
  exact hread.bind (gives_pure _)

theorem gives_influencers {influencers : List InfluenceCounts}
    (h : ∀ f ∈ influencers, ∀ e ∈ f.toList, e.1.pair.Writable ∧ e.2 < 2 ^ 64) (a : Aggregates)
    (ha : a.influencers = []) :
    Gives (readPart a (Tag.influencers.level (influencers.map fun f =>
      Tag.influenceField.level (f.toList.map fun (m, n) => Tag.entry.level
        (pairNodes m.pair ++ [Tag.influence.leaf m.text, Tag.value.nat n])))))
      { a with influencers } := by
  have hread := gives_foldlM_map
    (fun f => Tag.influenceField.level (f.toList.map fun (m, n) =>
      Tag.entry.level (pairNodes m.pair ++ [Tag.influence.leaf m.text, Tag.value.nat n])))
    readInfluenceField (fun acc f => acc ++ [f]) influencers (fun _ => True) (a := []) trivial
    fun acc f hf _ => by
      have hfield := gives_readInfluenceField acc (h f hf)
      exact ⟨hfield, trivial⟩
  have happend : influencers.foldl (fun acc f => acc ++ [f]) [] = influencers := by
    rw [List.foldl_append_eq_append, List.nil_append]
    exact List.flatMap_singleton' influencers
  rw [happend] at hread
  simp only [readPart, tag?_level, ok_bind, children_level, ha]
  exact hread.bind (gives_pure _)

theorem gives_ofNodes_nodes {a : Aggregates} (hw : a.Writable) : Gives (ofNodes a.nodes) a := by
  unfold ofNodes nodes
  rw [List.foldlM_cons]
  apply (gives_counts hw.counts ∅ rfl).bind
  rw [List.foldlM_cons]
  apply (gives_nulls hw.nulls _ rfl).bind
  rw [List.foldlM_cons]
  exact (gives_influencers hw.influencers _ rfl).bind (gives_pure _)

end Aggregates

/-! ## texts -/

namespace DistinctTexts
open Restore

/-- all ids fit a word -/
def Writable (d : DistinctTexts) : Prop := ∀ e ∈ d.byPair.toList, e.1.Writable

instance (d : DistinctTexts) : Decidable d.Writable :=
  inferInstanceAs (Decidable (∀ e ∈ d.byPair.toList, _))

theorem gives_readField_text (e : Entry) (text : String) :
    Gives (readField e (Tag.text.leaf text)) { e with texts := e.texts.insert text } := by
  simp only [readField, tag?_leaf, ok_bind, text_leaf]
  exact (gives_intern text).bind (gives_pure _)

theorem gives_readEntry (d : DistinctTexts) {p : Pair} (texts : TextSet) (hp : p.Writable) :
    Gives (readEntry d (Tag.entry.level
      (Aggregates.pairNodes p ++ texts.toList.map Tag.text.leaf))) ⟨d.byPair.insert p texts⟩ := by
  have hpid (e : Entry) :
      readField e (Tag.pid.nat p.person) = pure { e with pid := some p.person } := by
    simp only [readField, tag?_nat, ok_bind, word_nat _ _ hp.1]
  have hcid (e : Entry) : readField e (Tag.cid.nat p.attr) = pure { e with cid := some p.attr } := by
    simp only [readField, tag?_nat, ok_bind, word_nat _ _ hp.2]
  have hread := gives_foldlM_map Tag.text.leaf readField
    (fun e text => { e with texts := e.texts.insert text }) texts.toList (fun _ => True)
    (a := ⟨some p.person, some p.attr, ∅⟩) trivial
    fun e text _ _ => ⟨gives_readField_text e text, trivial⟩
  have hcollect : texts.toList.foldl (fun e text => { e with texts := e.texts.insert text })
      (Entry.mk (some p.person) (some p.attr) ∅) = ⟨some p.person, some p.attr, texts⟩ := by
    have hfold : texts.toList.foldl (fun e text => { e with texts := e.texts.insert text })
        (Entry.mk (some p.person) (some p.attr) ∅) =
          ⟨some p.person, some p.attr, texts.toList.foldl (fun acc text => acc.insert text) ∅⟩ :=
      List.foldl_hom (Entry.mk (some p.person) (some p.attr)) fun _ _ => rfl
    rw [hfold, rebuild_set]
  rw [hcollect] at hread
  simp only [readEntry, tag?_level, ok_bind, children_level, Aggregates.pairNodes,
    List.cons_append, List.nil_append, List.foldlM_cons, hpid, hcid, pure_bind]
  rw [if_neg (by decide)]
  exact hread.bind (gives_pure _)

theorem gives_ofNodes_nodes {d : DistinctTexts} (hw : d.Writable) : Gives (ofNodes d.nodes) d := by
  have hread := gives_foldlM_map
    (fun e => Tag.entry.level
      (Aggregates.pairNodes e.1 ++ e.2.toList.map Tag.text.leaf))
    readEntry (fun d e => ⟨d.byPair.insert e.1 e.2⟩) d.byPair.toList (fun _ => True) (a := ∅)
    trivial fun d' e he _ => by
      have hp := hw e he
      exact ⟨gives_readEntry d' e.2 hp, trivial⟩
  have hcollect : d.byPair.toList.foldl (fun d e => ⟨d.byPair.insert e.1 e.2⟩) ∅ = d := by
    have hfold : d.byPair.toList.foldl (fun d e => DistinctTexts.mk (d.byPair.insert e.1 e.2)) ∅ =
        ⟨d.byPair.toList.foldl (fun m e => m.insert e.1 e.2) ∅⟩ :=
      List.foldl_hom DistinctTexts.mk fun _ _ => rfl
    rw [hfold, rebuild _ (by simp)]
  rw [hcollect] at hread
  exact hread

end DistinctTexts

/-! ## data -/

/-- data that reads back as it was, where it is writable -/
class ReadsBack (α : Type) [PairData α] where
  /-- whether every part of the data can be written without a loss -/
  writable : α → Prop
  decidable_writable : DecidablePred writable
  gives_restore {a : α} (h : writable a) : Restore.Gives (restore (persist a)) a

export ReadsBack (writable gives_restore)

instance {α : Type} [PairData α] [ReadsBack α] (a : α) : Decidable (writable a) :=
  ReadsBack.decidable_writable a

instance : ReadsBack Aggregates where
  writable := Aggregates.Writable
  decidable_writable a := inferInstanceAs (Decidable a.Writable)
  gives_restore := Aggregates.gives_ofNodes_nodes

instance : ReadsBack DistinctTexts where
  writable := DistinctTexts.Writable
  decidable_writable d := inferInstanceAs (Decidable d.Writable)
  gives_restore := DistinctTexts.gives_ofNodes_nodes

instance : ReadsBack Metrics where
  writable := Metrics.Writable
  decidable_writable m := inferInstanceAs (Decidable m.Writable)
  gives_restore {m} h := by
    show Restore.Gives (Restore.ofExcept (Metrics.ofNodes m.nodes)) m
    rw [Metrics.ofNodes_nodes h]
    exact Restore.gives_ofExcept m

end EventBuckets
