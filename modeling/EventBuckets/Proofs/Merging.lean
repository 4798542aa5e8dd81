import EventBuckets.Proofs.Contents

/-!
# What merged buckets say

Two buckets merged say what the records of both come to: counts add up, while texts and explicit
nulls are united.  In what order the records came does not matter to either.

* `getElem?_addAll`, `DistinctTexts.get?_merge`
                                       maps merged key by key;
* `SumsTo.merge`                       so are sums;
* `Recorded.total_perm`                sums do not depend on an order;
* `Merges`                             a relation of buckets and records that merging keeps to;
* `Aggregates.Counts`, `DistinctTexts.Lists`
                                       two such relations, for counts and texts;
* `Counts.counts_eq`, `Lists.eq`       the records determine the counts and the texts.
-/

set_option linter.unusedSectionVars false

namespace EventBuckets
open Recorded

/-! ## sums -/

section
variable {κ : Type} [Ord κ] [Std.TransOrd κ] [Std.LawfulEqOrd κ] [DecidableEq κ]
  {m m' : Std.ExtTreeMap κ Nat compare} {f f' : κ → Nat}

theorem getElem?_addAll (m m' : Std.ExtTreeMap κ Nat compare) (k : κ) :
    (m'.foldl EventBuckets.addTo m)[k]? = Option.merge (· + ·) m[k]? m'[k]? :=
  getElem?_foldl_alter Nat.zero_add m m' k

theorem SumsTo.positive (h : SumsTo m f) : EachValue (0 < ·) m := by
  intro k n hn
  rw [h k] at hn
  split at hn
  next hpos => exact Option.some.inj hn ▸ hpos
  · cases hn

/-- sums that are added entry by entry -/
theorem SumsTo.merge (h : SumsTo m f) (h' : SumsTo m' f') :
    SumsTo (m'.foldl EventBuckets.addTo m) fun k => f k + f' k := by
  intro k
  rw [getElem?_addAll, h k, h' k]
  by_cases hf : 0 < f k <;> by_cases hf' : 0 < f' k
  · simp [hf, hf']
  · simp [hf, Nat.eq_zero_of_not_pos hf']
  · simp [Nat.eq_zero_of_not_pos hf, hf']
  · simp [Nat.eq_zero_of_not_pos hf, Nat.eq_zero_of_not_pos hf']

end

namespace Recorded
variable {rs rs' : List Recorded}

theorem total_perm (hp : rs.Perm rs') (chosen : Recorded → Bool) :
    total chosen rs = total chosen rs' :=
  ((hp.filter chosen).map Recorded.count).sum_eq

theorem exists_mem_append {P : Recorded → Prop} :
    (∃ x ∈ rs ++ rs', P x) ↔ (∃ x ∈ rs, P x) ∨ ∃ x ∈ rs', P x := by
  simp only [List.mem_append, or_and_right, exists_or]

theorem exists_mem_perm (hp : rs.Perm rs') {P : Recorded → Prop} :
    (∃ x ∈ rs, P x) ↔ ∃ x ∈ rs', P x := by
  simp only [hp.mem_iff]

end Recorded

/-- an empty bucket has no records, a merged one those of both, and their order does not matter -/
structure Merges {α : Type} [EmptyCollection α] [Merge α] (told : α → List Recorded → Prop) :
    Prop where
  empty : told ∅ []
  merge : ∀ {a b rs rs'}, told a rs → told b rs' → told (merge a b) (rs ++ rs')
  perm : ∀ {a rs rs'}, told a rs → rs.Perm rs' → told a rs'

/-! ## counts -/

namespace Aggregates
variable {a b : Aggregates} {rs rs' : List Recorded}

theorem getElem?_foldl_addPositive (m m' : PairMap Nat) (p : Pair) :
    (m'.foldl addPositive m)[p]? =
      m'[p]?.elim m[p]? fun n => if 0 < n then some (m[p]?.getD 0 + n) else m[p]? := by
  refine getElem?_foldl_entries (f := fun n old => if 0 < n then some (old.getD 0 + n) else old)
    (fun m q n => ?_) (fun m q n p hne => ?_) m m' p
  · unfold addPositive
    split
    · rw [getElem?_addTo, if_pos rfl]
    · rfl
  · unfold addPositive
    split
    · rw [getElem?_addTo, if_neg hne]
    · rfl

/-- counts that are positive are all added -/
theorem foldl_addPositive {m m' : PairMap Nat} (h : EachValue (0 < ·) m') :
    m'.foldl addPositive m = m'.foldl addTo m := by
  rw [Std.ExtTreeMap.foldl_eq_foldl_toList, Std.ExtTreeMap.foldl_eq_foldl_toList]
  apply List.foldl_ext
  intro m e he
  exact if_pos (h e.1 e.2 (Std.ExtTreeMap.mem_toList_iff_getElem?_eq_some.mp he))

theorem sumsTo_addPositive {m m' : PairMap Nat} {f f' : Pair → Nat} (h : SumsTo m f)
    (h' : SumsTo m' f') : SumsTo (m'.foldl addPositive m) fun p => f p + f' p := by
  rw [foldl_addPositive h'.positive]
  exact h.merge h'

theorem contains_foldl_insert (s s' : PairSet) (p : Pair) :
    (s'.foldl (fun s p => s.insert p) s).contains p = true ↔
      s.contains p = true ∨ s'.contains p = true := by
  simp only [Std.ExtTreeSet.contains_iff_mem]
  exact mem_foldl_set_insert s s' p

theorem addFields_eq (xs ys : List InfluenceCounts) : addFields xs ys = zipLonger addAll xs ys := by
  induction xs generalizing ys with
  | nil => rfl
  | cons x xs ih =>
    cases ys with
    | nil => rfl
    | cons y ys => exact congrArg (addAll x y :: ·) (ih ys)

/-- the fields of two buckets add up, one by one -/
theorem sumsTo_addFields {f f' : Mention → Nat} (xs ys : List InfluenceCounts) (i : Nat)
    (h : SumsTo (xs[i]?.getD ∅) f) (h' : SumsTo (ys[i]?.getD ∅) f') :
    SumsTo ((addFields xs ys)[i]?.getD ∅) fun m => f m + f' m := by
  have hfield : (addFields xs ys)[i]?.getD ∅ = addAll (xs[i]?.getD ∅) (ys[i]?.getD ∅) := by
    refine Std.ExtTreeMap.ext_getElem? fun m => ?_
    unfold addAll
    rw [addFields_eq, getElem?_zipLonger, getElem?_addAll]
    cases xs[i]? <;> cases ys[i]? <;> simp [addAll, getElem?_addAll]
  rw [hfield]
  exact h.merge h'

theorem Counts.merge (h : a.Counts rs) (h' : b.Counts rs') :
    Counts (merge a b) (rs ++ rs') := by
  refine ⟨?_, fun p => ?_, fun i => ?_⟩
  · simp only [total_append]
    exact sumsTo_addPositive h.counts h'.counts
  · rw [exists_mem_append, ← h.nulls, ← h'.nulls]
    exact contains_foldl_insert a.nulls b.nulls p
  · simp only [total_append]
    exact sumsTo_addFields a.influencers b.influencers i (h.influencers i) (h'.influencers i)

theorem Counts.perm (h : a.Counts rs) (hp : rs.Perm rs') : a.Counts rs' := by
  refine ⟨?_, fun p => ?_, fun i => ?_⟩
  · simp only [← total_perm hp]
    exact h.counts
  · rw [h.nulls, exists_mem_perm hp]
  · simp only [← total_perm hp]
    exact h.influencers i

theorem merges_counts : Merges Counts := ⟨counts_nil, Counts.merge, Counts.perm⟩

theorem Counts.counts_eq (h : a.Counts rs) (h' : b.Counts rs) : a.counts = b.counts :=
  h.counts.ext h'.counts

end Aggregates

/-! ## texts -/

namespace DistinctTexts
variable {d d' : DistinctTexts} {rs rs' : List Recorded}

theorem mem_uniteTexts (s s' : TextSet) (text : String) :
    text ∈ uniteTexts s s' ↔ text ∈ s ∨ text ∈ s' :=
  mem_foldl_set_insert s s' text

section
variable {κ : Type} [Ord κ] [Std.TransOrd κ] [Std.LawfulEqOrd κ] [DecidableEq κ]

theorem getElem?_addTexts (m : Std.ExtTreeMap κ TextSet compare) (k j : κ) (texts : TextSet) :
    (addTexts m j texts)[k]? =
      if j = k then some (uniteTexts (m[k]?.getD ∅) texts) else m[k]? := by
  unfold addTexts
  rw [Std.ExtTreeMap.getElem?_alter]
  simp only [Std.LawfulEqOrd.compare_eq_iff_eq]
  split
  next e => rw [e]
  next => rfl

/-- a text is held once the texts of further keys are added iff it was before or is among them -/
theorem holds_foldl_addTexts (es : List (κ × TextSet)) (m : Std.ExtTreeMap κ TextSet compare)
    (k : κ) :
    (((es.foldl (fun m e => addTexts m e.1 e.2) m)[k]?).isSome = true ↔
      (m[k]?).isSome = true ∨ ∃ e ∈ es, e.1 = k) ∧
    ∀ text : String,
      (∃ texts, (es.foldl (fun m e => addTexts m e.1 e.2) m)[k]? = some texts ∧ text ∈ texts) ↔
        (∃ texts, m[k]? = some texts ∧ text ∈ texts) ∨ ∃ e ∈ es, e.1 = k ∧ text ∈ e.2 := by
  induction es generalizing m with
  | nil => simp
  | cons e es ih =>
    obtain ⟨hlisted, hholds⟩ := ih (addTexts m e.1 e.2)
    refine ⟨?_, fun text => ?_⟩
    · rw [List.foldl_cons, hlisted, getElem?_addTexts]
      by_cases he : e.1 = k
      · simp [he]
      · simp [he]
    · rw [List.foldl_cons, hholds]
      simp only [getElem?_addTexts]
      by_cases he : e.1 = k
      · simp only [he, if_true, Option.some.injEq, exists_eq_left', mem_uniteTexts,
          List.mem_cons, exists_eq_or_imp, true_and]
        rw [or_assoc]
        refine or_congr ?_ Iff.rfl
        cases m[k]? with
        | none => simp
        | some texts => simp
      · simp [he]

end

theorem get?_merge (d d' : DistinctTexts) (p : Pair) :
    (merge d d').get? p = Option.merge uniteTexts (d.get? p) (d'.get? p) :=
  getElem?_foldl_alter foldl_set_insert_empty d.byPair d'.byPair p

theorem Lists.merge (h : d.Lists rs) (h' : d'.Lists rs') : Lists (merge d d') (rs ++ rs') := by
  refine ⟨fun p => ?_, fun p text => ?_⟩
  · rw [exists_mem_append, ← h.listed, ← h'.listed, get?_merge]
    cases d.get? p <;> cases d'.get? p <;> simp
  · rw [exists_mem_append, ← h.holds, ← h'.holds]
    unfold Holds
    rw [get?_merge]
    cases d.get? p <;> cases d'.get? p <;> simp [mem_uniteTexts]

theorem Lists.perm (h : d.Lists rs) (hp : rs.Perm rs') : d.Lists rs' := by
  refine ⟨fun p => ?_, fun p text => ?_⟩
  · rw [h.listed, exists_mem_perm hp]
  · rw [h.holds, exists_mem_perm hp]

theorem merges_lists : Merges Lists := ⟨lists_nil, Lists.merge, Lists.perm⟩

theorem Lists.eq (h : d.Lists rs) (h' : d'.Lists rs) : d = d' := by
  have hget (p : Pair) : d.get? p = d'.get? p := by
    have hlisted : (d.get? p).isSome = true ↔ (d'.get? p).isSome = true :=
      (h.listed p).trans (h'.listed p).symm
    have hholds (text : String) : d.Holds p text ↔ d'.Holds p text :=
      (h.holds p text).trans (h'.holds p text).symm
    unfold Holds at hholds
    cases hd : d.get? p with
    | none =>
      cases hd' : d'.get? p with
      | none => rfl
      | some texts' => simp [hd, hd'] at hlisted
    | some texts =>
      cases hd' : d'.get? p with
      | none => simp [hd, hd'] at hlisted
      | some texts' =>
        simp only [hd, hd', Option.some.injEq, exists_eq_left'] at hholds
        rw [Std.ExtTreeSet.ext_mem hholds]
  show DistinctTexts.mk d.byPair = DistinctTexts.mk d'.byPair
  rw [Std.ExtTreeMap.ext_getElem? hget]

end DistinctTexts

end EventBuckets
