import EventBuckets.Proofs.Merging

/-!
# Merging is associative and commutative

Counts are summed under each pair, explicit nulls are united, and the influences of a pair are summed
in each field, of which a bucket may have more than another one.  Each of them is associative and
commutative with the empty data as identity, and so are they together.  Counts are added only if they
are positive, so an identity on the right needs a bucket without zero counts; those that are built of
records have none.

* `MergeLaws`              the laws of an operation on data of pairs, some of which may be dropped;
* `mergeLaws_pairs`, `mergeLaws_maps`, `MergeLaws.lists`
                           they hold of sets, maps and lists if they hold of what these are made of;
* `Aggregates.Built`       the counts that records, merging and dropping pairs lead to;
* `mergeLaws_of_buckets`   such counts and sets of texts merge by these laws.
-/

set_option linter.unusedSectionVars false

namespace EventBuckets

/-- data with a property is merged in any order and grouping, empty data adds nothing to it, and
pairs may be dropped before or after -/
structure MergeLaws {α : Type} (P : α → Prop) (op : α → α → α) (empty : α)
    (keep : (Pair → Bool) → α → α) : Prop where
  assoc : ∀ {a b c}, P a → P b → P c → op (op a b) c = op a (op b c)
  comm : ∀ {a b}, P a → P b → op a b = op b a
  empty_op : ∀ {a}, P a → op empty a = a
  op_empty : ∀ {a}, P a → op a empty = a
  keep_op : ∀ (keeps : Pair → Bool) {a b}, P a → P b →
    keep keeps (op a b) = op (keep keeps a) (keep keeps b)

/-! ## sets, maps and lists -/

theorem mergeLaws_pairs : MergeLaws (fun _ : PairSet => True)
    (fun s s' => s'.foldl (fun s p => s.insert p) s) ∅ fun keeps s => s.filter keeps where
  assoc _ _ _ := foldl_set_insert_assoc _ _ _
  comm _ _ := foldl_set_insert_comm _ _
  empty_op _ := foldl_set_insert_empty _
  op_empty _ := (foldl_set_insert_comm _ _).trans (foldl_set_insert_empty _)
  keep_op keeps _ _ _ _ := Std.ExtTreeSet.ext_mem fun {p} => by
    simp only [mem_foldl_set_insert, Std.ExtTreeSet.mem_filter, Std.ExtTreeSet.get_eq, exists_prop,
      or_and_right]

section
variable {κ : Type} [Ord κ] [Std.TransOrd κ] [Std.LawfulEqOrd κ]

/-- maps are merged key by key, if the values of the second one have a property -/
theorem mergeLaws_maps {β : Type} {P : β → Prop} {f : β → β → β} [Std.Associative f]
    [Std.Commutative f] (hf : ∀ {v w}, P v → P w → P (f v w)) (pairOf : κ → Pair)
    {op : Std.ExtTreeMap κ β compare → Std.ExtTreeMap κ β compare → Std.ExtTreeMap κ β compare}
    (hop : ∀ a {b}, EachValue P b → ∀ k : κ, (op a b)[k]? = Option.merge f a[k]? b[k]?) :
    MergeLaws (EachValue P) op ∅ fun keeps m => m.filter fun k _ => keeps (pairOf k) where
  assoc {a b c} _ hb hc := by
    have hbc : EachValue P (op b c) := hb.merge hf hc (hop b hc)
    refine Std.ExtTreeMap.ext_getElem? fun k => ?_
    rw [hop _ hc, hop a hb, hop a hbc, hop b hc]
    exact Std.Associative.assoc _ _ _
  comm {a b} ha hb := by
    refine Std.ExtTreeMap.ext_getElem? fun k => ?_
    rw [hop a hb, hop b ha]
    exact Std.Commutative.comm _ _
  empty_op {a} ha := by
    refine Std.ExtTreeMap.ext_getElem? fun k => ?_
    rw [hop ∅ ha, Std.ExtTreeMap.getElem?_empty, Option.merge_none_left]
  op_empty {a} _ := by
    refine Std.ExtTreeMap.ext_getElem? fun k => ?_
    rw [hop a eachValue_empty, Std.ExtTreeMap.getElem?_empty, Option.merge_none_right]
  keep_op keeps {a b} _ hb := by
    refine Std.ExtTreeMap.ext_getElem? fun k => ?_
    have hkept (m : Std.ExtTreeMap κ β compare) :=
      getElem?_filter_keys m (fun k => keeps (pairOf k)) k
    rw [hkept, hop a hb, hop _ (hb.filter _), hkept, hkept]
    split <;> simp

end

section
variable {α : Type} {P Q : α → Prop} {op : α → α → α} {e : α} {keep : (Pair → Bool) → α → α}

/-- lists are merged position by position; they need not be of one length -/
theorem MergeLaws.lists (h : MergeLaws P op e keep) :
    MergeLaws (fun as => ∀ a ∈ as, P a) (zipLonger op) []
      fun keeps as => as.map (keep keeps) where
  assoc has hbs hcs := zipLonger_assoc fun a ha b hb c hc =>
    h.assoc (has a ha) (hbs b hb) (hcs c hc)
  comm has hbs := zipLonger_comm fun a ha b hb => h.comm (has a ha) (hbs b hb)
  empty_op _ := rfl
  op_empty _ := zipLonger_nil op _
  keep_op keeps _ _ has hbs := map_zipLonger fun a ha b hb =>
    h.keep_op keeps (has a ha) (hbs b hb)

theorem MergeLaws.mono (h : MergeLaws P op e keep) (hQ : ∀ {a}, Q a → P a) :
    MergeLaws Q op e keep where
  assoc ha hb hc := h.assoc (hQ ha) (hQ hb) (hQ hc)
  comm ha hb := h.comm (hQ ha) (hQ hb)
  empty_op ha := h.empty_op (hQ ha)
  op_empty ha := h.op_empty (hQ ha)
  keep_op keeps _ _ ha hb := h.keep_op keeps (hQ ha) (hQ hb)

end

/-! ## counts -/

namespace Aggregates
variable {a b : Aggregates}

theorem getElem?_addPositive (m : PairMap Nat) {m' : PairMap Nat} (h : EachValue (0 < ·) m')
    (p : Pair) : (m'.foldl addPositive m)[p]? = Option.merge (· + ·) m[p]? m'[p]? := by
  rw [foldl_addPositive h, getElem?_addAll]

theorem mergeLaws_counts : MergeLaws (EachValue (0 < ·))
    (fun m m' : PairMap Nat => m'.foldl addPositive m) ∅ fun keeps m => m.filter fun p _ => keeps p :=
  mergeLaws_maps (fun hv _ => Nat.add_pos_left hv _) id getElem?_addPositive

theorem mergeLaws_field : MergeLaws (EachValue fun _ => True) addAll ∅
    fun keeps f => f.filter fun m _ => keeps m.pair :=
  mergeLaws_maps (f := fun m n => m + n) (fun _ _ => trivial) Mention.pair
    fun m m' _ k => getElem?_addAll m m' k

/-- any number of fields -/
theorem mergeLaws_fields : MergeLaws (fun _ : List InfluenceCounts => True) addFields []
    fun keeps fields => fields.map fun f => f.filter fun m _ => keeps m.pair := by
  have heq : addFields = zipLonger addAll := funext fun xs => funext (addFields_eq xs)
  rw [heq]
  exact mergeLaws_field.lists.mono fun _ _ _ _ _ _ => trivial

theorem mergeLaws_of_positive :
    MergeLaws (fun a : Aggregates => EachValue (0 < ·) a.counts) mergeWith ∅ keep := by
  have hcounts := mergeLaws_counts
  have hnulls := mergeLaws_pairs
  have hfields := mergeLaws_fields
  have hmk {x x' : PairMap Nat} {y y' : PairSet} {z z' : List InfluenceCounts} (hx : x = x')
      (hy : y = y') (hz : z = z') : Aggregates.mk x y z = Aggregates.mk x' y' z' := by
    rw [hx, hy, hz]
  exact
    { assoc := fun ha hb hc => hmk (hcounts.assoc ha hb hc)
        (hnulls.assoc trivial trivial trivial) (hfields.assoc trivial trivial trivial)
      comm := fun ha hb => hmk (hcounts.comm ha hb) (hnulls.comm trivial trivial)
        (hfields.comm trivial trivial)
      empty_op := fun ha => hmk (hcounts.empty_op ha) (hnulls.empty_op trivial)
        (hfields.empty_op trivial)
      op_empty := fun ha => hmk (hcounts.op_empty ha) (hnulls.op_empty trivial)
        (hfields.op_empty trivial)
      keep_op := fun keeps _ _ ha hb => hmk (hcounts.keep_op keeps ha hb)
        (hnulls.keep_op keeps trivial trivial) (hfields.keep_op keeps trivial trivial) }

/-- counts that records, dropping pairs and merging lead to -/
inductive Built : Aggregates → Prop
  | empty : Built ∅
  | countPair {a : Aggregates} (ha : Built a) (p : Pair) (n : Nat) : Built (a.countPair p n)
  | markNull {a : Aggregates} (ha : Built a) (p : Pair) : Built (a.markNull p)
  | countInfluences {a : Aggregates} (ha : Built a) (p : Pair) (influences : List (Option String))
      (n : Nat) : Built (a.countInfluences p influences n)
  | retain {a : Aggregates} (ha : Built a) (keeps : Pair → Bool) : Built (PairData.retain keeps a)
  | merge {a b : Aggregates} (ha : Built a) (hb : Built b) : Built (merge a b)

theorem positive_addPositive {m : PairMap Nat} (h : EachValue (0 < ·) m) (p : Pair) (n : Nat) :
    EachValue (0 < ·) (addPositive m p n) := by
  unfold addPositive
  split
  next hn =>
    intro q k hk
    rw [getElem?_addTo] at hk
    split at hk
    next => exact Option.some.inj hk ▸ Nat.add_pos_right _ hn
    next => exact h q k hk
  next => exact h

/-- no step leaves a zero count behind -/
theorem Built.positive (h : a.Built) : EachValue (0 < ·) a.counts := by
  induction h with
  | empty => exact eachValue_empty
  | countPair _ p n ih => exact positive_addPositive ih p n
  | markNull _ _ ih => exact ih
  | countInfluences _ _ _ _ ih => exact ih
  | retain _ keeps ih => exact ih.filter keeps
  | merge _ _ iha ihb =>
    exact iha.merge (fun hv _ => Nat.add_pos_left hv _) ihb (getElem?_addPositive _ ihb)

end Aggregates

/-! ## sets of texts -/

namespace DistinctTexts

instance : Std.Associative uniteTexts := ⟨foldl_set_insert_assoc⟩

instance : Std.Commutative uniteTexts := ⟨foldl_set_insert_comm⟩

theorem mergeLaws_texts : MergeLaws (EachValue fun _ => True)
    (fun m m' : PairMap TextSet => m'.foldl addTexts m) ∅
    fun keeps m => m.filter fun p _ => keeps p :=
  mergeLaws_maps (fun _ _ => trivial) id fun m m' _ p => get?_merge ⟨m⟩ ⟨m'⟩ p

/-- any sets of texts -/
theorem mergeLaws : MergeLaws (fun _ : DistinctTexts => True) merge ∅ PairData.retain := by
  have htexts := mergeLaws_texts
  have hany (m : PairMap TextSet) : EachValue (fun _ => True) m := fun _ _ _ => trivial
  exact
    { assoc := fun _ _ _ => congrArg mk (htexts.assoc (hany _) (hany _) (hany _))
      comm := fun _ _ => congrArg mk (htexts.comm (hany _) (hany _))
      empty_op := fun _ => congrArg mk (htexts.empty_op (hany _))
      op_empty := fun _ => congrArg mk (htexts.op_empty (hany _))
      keep_op := fun keeps _ _ _ _ => congrArg mk (htexts.keep_op keeps (hany _) (hany _)) }

end DistinctTexts

/-- counts built of records, and sets of texts, are merged in any order and grouping, empty ones add
nothing, and pairs may be dropped before or after -/
theorem mergeLaws_of_buckets :
    MergeLaws Aggregates.Built merge ∅ PairData.retain ∧
      MergeLaws (fun _ : DistinctTexts => True) merge ∅ PairData.retain :=
  ⟨Aggregates.mergeLaws_of_positive.mono Aggregates.Built.positive, DistinctTexts.mergeLaws⟩

/-- a zero count does not survive being merged into another bucket -/
example : merge (∅ : Aggregates) ⟨(∅ : PairMap Nat).insert ⟨0, 0⟩ 0, ∅, []⟩ = ∅ := by
  show Aggregates.mk _ _ _ = Aggregates.mk _ _ _
  cbv

end EventBuckets
