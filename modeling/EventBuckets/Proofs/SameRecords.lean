import EventBuckets.Proofs.Merging

/-!
# Two buckets of the same records

The counts and the series data of a bucket live apart, but tell the same records.  So they agree on
the pairs, and the series never has more of a pair than was counted.

* `Metrics.Tallies`        the pairs with statistics, and the numbers of their measurements;
* `Chronicle`              a relation of buckets and records that taking a record, merging, dropping
                           pairs and emptying keep to: `Counts`, `Lists` and `Tallies` are three;
* `Shares`                 two buckets tell the same records, each in its way;
* `Aggregates.Coherent`    no count is zero, and the influences of a pair are no more than its count;
* `DistinctTexts.Within`, `Metrics.Within`
                           the series data of a bucket is no more than what was counted;
* `Shares.coherent_texts`, `Shares.coherent_metrics`
                           that is so of buckets with the same records.
-/

set_option linter.unusedSectionVars false

namespace EventBuckets
open Recorded

/-! ## sums over records -/

namespace Recorded
variable {p : Pair} {rs : List Recorded} {chosen chosen' : Recorded → Bool}

theorem total_mono (h : ∀ x, chosen x = true → chosen' x = true) (rs : List Recorded) :
    total chosen rs ≤ total chosen' rs := by
  induction rs with
  | nil => exact le_rfl
  | cons x rs ih =>
    rw [total_cons, total_cons]
    by_cases hx : chosen x = true
    · rw [if_pos hx, if_pos (h x hx)]
      omega
    · rw [if_neg hx]
      omega

/-- each record counts at least once -/
theorem length_filter_le_total (hpos : ∀ x ∈ rs, 0 < x.count) (chosen : Recorded → Bool) :
    (rs.filter chosen).length ≤ total chosen rs := by
  induction rs with
  | nil => exact le_rfl
  | cons x rs ih =>
    have hx := hpos x List.mem_cons_self
    have ih := ih fun y hy => hpos y (List.mem_cons_of_mem _ hy)
    rw [total_cons, List.filter_cons]
    split
    · rw [List.length_cons]
      omega
    · omega

/-- a record is for one text at most in each field, so the texts of a pair add up to no more than
its count -/
theorem sum_total_isFor_le (i : Nat) {ms : List Mention} (hd : ms.Nodup)
    (hp : ∀ m ∈ ms, m.pair = p) (rs : List Recorded) :
    (ms.map fun m => total (isFor i m) rs).sum ≤ total (isOf p) rs := by
  have hsum : (ms.map fun m => total (isFor i m) rs).sum =
      total (fun x => ms.any fun m => x.isFor i m) rs := by
    clear hp
    induction ms with
    | nil => simp [total]
    | cons m ms ih =>
      obtain ⟨hm, hd⟩ := List.nodup_cons.mp hd
      rw [List.map_cons, List.sum_cons, ih hd]
      refine (total_add fun x _ => ⟨by simp, ?_⟩).symm
      -- two texts of one field cannot both be that of a record
      rintro ⟨hx, hany⟩
      obtain ⟨m', hm', hx'⟩ := List.any_eq_true.mp hany
      have hpair := (pair_eq_of_isOf (isOf_of_isFor hx)).symm.trans
        (pair_eq_of_isOf (isOf_of_isFor hx'))
      unfold isFor at hx hx'
      simp only [Bool.and_eq_true, decide_eq_true_eq] at hx hx'
      have htext : m.text = m'.text := by simpa using hx.2.symm.trans hx'.2
      have heq : m = m' := by
        cases m
        cases m'
        simpa using ⟨hpair, htext⟩
      exact hm (heq ▸ hm')
  rw [hsum]
  refine total_mono (fun x hx => ?_) rs
  obtain ⟨m, hm, hfor⟩ := List.any_eq_true.mp hx
  exact hp m hm ▸ isOf_of_isFor hfor

end Recorded

/-! ## measurements -/

namespace Metrics

/-- the number of measurements of a pair; one without values is none -/
def measurements (p : Pair) (rs : List Recorded) : Nat :=
  (rs.filter fun x => x.isOf p && !x.event.values.isEmpty).length

/-- the pairs of records have statistics, each with the number of its measurements -/
structure Tallies (m : Metrics) (rs : List Recorded) : Prop where
  listed : ∀ p, (m.get? p).isSome = true ↔ ∃ x ∈ rs, x.isOf p = true
  number : ∀ p, ((m.get? p).getD ∅).count = measurements p rs

variable {m m' : Metrics} {rs rs' : List Recorded}

theorem tallies_nil : Tallies ∅ [] := by
  refine ⟨fun p => ?_, fun p => ?_⟩
  · simp [get?]
  · simp [get?, measurements]
    rfl

theorem count_add (s : Summary) (values : List Binary64) :
    (s.add values).count = s.count + if values.isEmpty then 0 else 1 := by
  unfold Summary.add
  split <;> rfl

theorem Tallies.take (h : m.Tallies rs) (x : Recorded) : (m.take x).Tallies (rs ++ [x]) := by
  refine ⟨fun p => ?_, fun p => ?_⟩
  · rw [exists_mem_snoc, ← h.listed, get?_take]
    split
    next hx => simp [hx]
    next hx => simp [hx]
  · unfold measurements
    rw [List.filter_append, List.length_append, get?_take]
    have hnumber := h.number p
    unfold measurements at hnumber
    by_cases hx : x.isOf p = true
    · rw [if_pos hx, Option.getD_some, count_add, hnumber]
      cases hv : x.event.values.isEmpty with
      | true => simp [hv]
      | false => simp [hx, hv]
    · rw [if_neg hx, hnumber]
      simp [hx]

theorem get?_merge (m m' : Metrics) (p : Pair) : (merge m m').get? p =
    (m'.get? p).elim (m.get? p) fun s => some (((m.get? p).getD ∅).mergeWith s) := by
  refine getElem?_foldl_entries (f := fun s old => some ((old.getD ∅).mergeWith s)) ?_ ?_
    m.byPair m'.byPair p
  · intro m k s
    unfold mergePair
    rw [Std.ExtTreeMap.getElem?_alter, if_pos (Std.LawfulEqOrd.compare_eq_iff_eq.mpr rfl)]
  · intro m k s j hne
    unfold mergePair
    rw [Std.ExtTreeMap.getElem?_alter, if_neg (mt Std.LawfulEqOrd.compare_eq_iff_eq.mp hne)]

theorem Tallies.merge (h : m.Tallies rs) (h' : m'.Tallies rs') :
    (EventBuckets.merge m m').Tallies (rs ++ rs') := by
  refine ⟨fun p => ?_, fun p => ?_⟩
  · rw [exists_mem_append, ← h.listed, ← h'.listed, get?_merge]
    cases m'.get? p <;> simp
  · have hsum : measurements p (rs ++ rs') = measurements p rs + measurements p rs' := by
      unfold measurements
      rw [List.filter_append, List.length_append]
    rw [hsum, ← h.number, ← h'.number, get?_merge]
    cases m'.get? p <;> rfl

theorem Tallies.keep (h : m.Tallies rs) (keeps : Pair → Bool) :
    Tallies ⟨m.byPair.filter fun p _ => keeps p⟩ (among keeps rs) := by
  have hget (p : Pair) : get? ⟨m.byPair.filter fun p _ => keeps p⟩ p =
      if keeps p then m.get? p else none :=
    getElem?_filter_keys m.byPair keeps p
  refine ⟨fun p => ?_, fun p => ?_⟩
  · rw [exists_among fun x => pair_eq_of_isOf, ← h.listed, hget]
    split <;> simp [*]
  · have hpair (x : Recorded) (hx : (x.isOf p && !x.event.values.isEmpty) = true) : x.pair = p :=
      pair_eq_of_isOf (Bool.and_eq_true_iff.mp hx).1
    unfold measurements
    rw [hget, filter_among hpair]
    split
    · exact h.number p
    · rfl

end Metrics

/-! ## chronicles -/

/-- what buckets of a kind tell of their records, whatever is done to them -/
structure Chronicle {α : Type} [PairData α] (told : α → List Recorded → Prop)
    (take : α → Recorded → α) : Prop extends Ring.Tracks told take where
  merge : ∀ {a b rs rs'}, told a rs → told b rs' → told (merge a b) (rs ++ rs')
  retain : ∀ {a rs} (keeps : Pair → Bool), told a rs →
    told (PairData.retain keeps a) (among keeps rs)
  vacant : ∀ {a}, PairData.isEmpty a = true → told a []

theorem Aggregates.counts_of_isEmpty {a : Aggregates} (h : a.isEmpty = true) : a.Counts [] := by
  obtain ⟨hcounts, hnulls, hfields⟩ := Aggregates.isEmpty_iff.mp h
  refine ⟨?_, fun p => ?_, fun i => ?_⟩
  · rw [hcounts]
    exact sumsTo_empty
  · simp [hnulls]
  · cases hi : a.influencers[i]? with
    | none => exact sumsTo_empty
    | some f =>
      rw [Option.getD_some, hfields f (List.mem_of_getElem? hi)]
      exact sumsTo_empty

theorem Aggregates.chronicle : Chronicle Aggregates.Counts Aggregates.take where
  empty := counts_nil
  take := Counts.take
  merge := Counts.merge
  retain keeps h := h.keep keeps
  vacant := counts_of_isEmpty

theorem DistinctTexts.chronicle : Chronicle DistinctTexts.Lists DistinctTexts.take where
  empty := lists_nil
  take h _ := h.take _
  merge := Lists.merge
  retain keeps h := h.keep keeps
  vacant {d} h := by
    obtain rfl : d = ∅ := congrArg DistinctTexts.mk (Std.ExtTreeMap.isEmpty_iff.mp h)
    exact lists_nil

theorem Metrics.chronicle : Chronicle Metrics.Tallies Metrics.take where
  empty := tallies_nil
  take h _ := h.take _
  merge := Tallies.merge
  retain keeps h := h.keep keeps
  vacant {m} h := by
    obtain rfl : m = ∅ := congrArg Metrics.mk (Std.ExtTreeMap.isEmpty_iff.mp h)
    exact tallies_nil

/-! ## the same records -/

/-- two buckets tell the same records, all of which count -/
def Shares {α β : Type} (told : α → List Recorded → Prop) (told' : β → List Recorded → Prop)
    (a : α) (b : β) : Prop :=
  ∃ rs, (∀ x ∈ rs, 0 < x.count) ∧ told a rs ∧ told' b rs

namespace Shares
variable {α β : Type} [PairData α] [PairData β] {told : α → List Recorded → Prop}
  {told' : β → List Recorded → Prop} {put : α → Recorded → α} {put' : β → Recorded → β}
  {a a₂ : α} {b b₂ : β}

theorem empty (L : Chronicle told put) (L' : Chronicle told' put') :
    Shares told told' (∅ : α) (∅ : β) :=
  ⟨[], by simp, L.empty, L'.empty⟩

theorem take (L : Chronicle told put) (L' : Chronicle told' put') (h : Shares told told' a b)
    {x : Recorded} (hx : 0 < x.count) : Shares told told' (put a x) (put' b x) := by
  obtain ⟨rs, hpos, ha, hb⟩ := h
  refine ⟨rs ++ [x], fun y hy => ?_, L.take ha hx, L'.take hb hx⟩
  rcases List.mem_append.mp hy with hy | hy
  · exact hpos y hy
  · rwa [List.mem_singleton.mp hy]

theorem merge (L : Chronicle told put) (L' : Chronicle told' put') (h : Shares told told' a b)
    (h₂ : Shares told told' a₂ b₂) :
    Shares told told' (EventBuckets.merge a a₂) (EventBuckets.merge b b₂) := by
  obtain ⟨rs, hpos, ha, hb⟩ := h
  obtain ⟨rs₂, hpos₂, ha₂, hb₂⟩ := h₂
  refine ⟨rs ++ rs₂, fun y hy => ?_, L.merge ha ha₂, L'.merge hb hb₂⟩
  exact (List.mem_append.mp hy).elim (hpos y) (hpos₂ y)

theorem retain (L : Chronicle told put) (L' : Chronicle told' put') (h : Shares told told' a b)
    (keeps : Pair → Bool) :
    Shares told told' (PairData.retain keeps a) (PairData.retain keeps b) := by
  obtain ⟨rs, hpos, ha, hb⟩ := h
  exact ⟨among keeps rs, fun y hy => hpos y (List.mem_filter.mp hy).1, L.retain keeps ha,
    L'.retain keeps hb⟩

/-- each of two buckets that ended is emptied if it has data: either way no record is left -/
theorem release (L : Chronicle told put) (L' : Chronicle told' put') (h : Shares told told' a b)
    (length cutoff start : Int) :
    Shares told told' (if Window.releasable length cutoff start a then ∅ else a)
      (if Window.releasable length cutoff start b then ∅ else b) := by
  unfold Window.releasable
  by_cases hended : bucketAfter start length ≤ cutoff
  · refine ⟨[], by simp, ?_, ?_⟩
    · cases ha : PairData.isEmpty a with
      | true => simpa using L.vacant ha
      | false => simpa [hended] using L.empty
    · cases hb : PairData.isEmpty b with
      | true => simpa using L'.vacant hb
      | false => simpa [hended] using L'.empty
  · simpa [hended] using h

end Shares

/-! ## what follows -/

/-- no count of a pair is zero, and in each influencing field the texts of a pair add up to no more
than its count -/
structure Aggregates.Coherent (a : Aggregates) : Prop where
  positive : ∀ (p : Pair) (n : Nat), a.counts[p]? = some n → 0 < n
  influences : ∀ f ∈ a.influencers, ∀ p : Pair,
    ((f.toList.filter fun e => e.1.pair = p).map Prod.snd).sum ≤ a.counts[p]?.getD 0

/-- each pair with texts is counted, at least once for each of them, and there is one -/
def DistinctTexts.Within (d : DistinctTexts) (a : Aggregates) : Prop :=
  ∀ p texts, d.get? p = some texts →
    ∃ n, a.counts[p]? = some n ∧ 0 < n ∧ texts.isEmpty = false ∧ texts.size ≤ n

/-- the pairs with statistics are those that are counted, at least once for each measurement -/
def Metrics.Within (m : Metrics) (a : Aggregates) : Prop :=
  ∀ p, Option.Rel (fun s n => s.count ≤ n) (m.get? p) a.counts[p]?

namespace Aggregates
variable {a : Aggregates} {rs : List Recorded}

theorem Counts.coherent (h : a.Counts rs) : a.Coherent := by
  refine ⟨fun p n hn => ?_, fun f hf p => ?_⟩
  · rw [h.counts p] at hn
    split at hn
    next hpos => exact Option.some.inj hn ▸ hpos
    next => cases hn
  · obtain ⟨i, hi, rfl⟩ := List.getElem_of_mem hf
    have hsums := h.influencers i
    rw [List.getElem?_eq_getElem hi, Option.getD_some] at hsums
    rw [h.counts.getD]
    -- the entries of the pair are texts of it, each with the sum over its records
    let es := a.influencers[i].toList.filter fun e => e.1.pair = p
    have hvalues : es.map Prod.snd = (es.map Prod.fst).map fun m => total (isFor i m) rs := by
      rw [List.map_map]
      refine List.map_congr_left fun e he => ?_
      exact ((hsums.mem_toList e.1 e.2).mp (List.mem_filter.mp he).1).2
    have hnodup : (es.map Prod.fst).Nodup :=
      (nodup_keys_toList a.influencers[i]).sublist (List.filter_sublist.map Prod.fst)
    show (es.map Prod.snd).sum ≤ _
    rw [hvalues]
    refine sum_total_isFor_le i hnodup (fun m hm => ?_) rs
    obtain ⟨e, he, rfl⟩ := List.mem_map.mp hm
    exact of_decide_eq_true (List.mem_filter.mp he).2

theorem Counts.getElem?_of_pos (h : a.Counts rs) {p : Pair} (hp : 0 < total (isOf p) rs) :
    a.counts[p]? = some (total (isOf p) rs) := by
  rw [h.counts p, if_pos hp]

/-- the distinct texts of a pair come from records of it, each of which counts -/
theorem within_texts {d : DistinctTexts} (hpos : ∀ x ∈ rs, 0 < x.count) (h : a.Counts rs)
    (hd : d.Lists rs) : d.Within a := by
  intro p texts htexts
  have hlisted := (hd.listed p).mp (by rw [htexts]; rfl)
  obtain ⟨x, hx, hof, htext⟩ := hlisted
  obtain ⟨text, htext⟩ := Option.isSome_iff_exists.mp htext
  have hcount := (Recorded.total_pos hpos).mpr ⟨x, hx, hof⟩
  have hmem (t : String) : t ∈ texts ↔ ∃ x ∈ rs, x.isOf p = true ∧ x.event.text = some t := by
    rw [← hd.holds]
    unfold DistinctTexts.Holds
    simp [htexts]
  refine ⟨_, h.getElem?_of_pos hcount, hcount, ?_, ?_⟩
  · rw [Bool.eq_false_iff, Ne, Std.ExtTreeSet.isEmpty_iff]
    rintro rfl
    exact Std.ExtTreeSet.not_mem_empty ((hmem text).mpr ⟨x, hx, hof, htext⟩)
  · have hsub : texts.toList ⊆ (rs.filter (isOf p)).filterMap fun x => x.event.text := by
      intro t ht
      obtain ⟨y, hy, hyof, hytext⟩ := (hmem t).mp (Std.ExtTreeSet.mem_toList.mp ht)
      exact List.mem_filterMap.mpr ⟨y, List.mem_filter.mpr ⟨hy, hyof⟩, hytext⟩
    rw [← Std.ExtTreeSet.length_toList]
    calc texts.toList.length
        ≤ ((rs.filter (isOf p)).filterMap fun x => x.event.text).length :=
          (nodup_toList texts).length_le_of_subset hsub
      _ ≤ (rs.filter (isOf p)).length := List.length_filterMap_le _ _
      _ ≤ total (isOf p) rs := length_filter_le_total hpos _

theorem within_metrics {m : Metrics} (hpos : ∀ x ∈ rs, 0 < x.count) (h : a.Counts rs)
    (hm : m.Tallies rs) : m.Within a := by
  intro p
  by_cases hp : ∃ x ∈ rs, x.isOf p = true
  · obtain ⟨s, hs⟩ := Option.isSome_iff_exists.mp ((hm.listed p).mpr hp)
    have hnumber := hm.number p
    rw [hs, Option.getD_some] at hnumber
    rw [hs, h.getElem?_of_pos ((Recorded.total_pos hpos).mpr hp)]
    refine .some ?_
    calc s.count = (rs.filter fun x => x.isOf p && !x.event.values.isEmpty).length := hnumber
      _ ≤ total (fun x => x.isOf p && !x.event.values.isEmpty) rs := length_filter_le_total hpos _
      _ ≤ total (isOf p) rs := total_mono (fun x hx => (Bool.and_eq_true_iff.mp hx).1) rs
  · have hnone : m.get? p = none := by
      rw [← Option.not_isSome_iff_eq_none, hm.listed]
      exact hp
    have hzero : ¬0 < total (isOf p) rs := mt (Recorded.total_pos hpos).mp hp
    rw [hnone, h.counts p, if_neg hzero]
    exact .none

end Aggregates

/-- a bucket of texts that tells the same records as the counts is within them -/
theorem Shares.coherent_texts {a : Aggregates} {d : DistinctTexts}
    (h : Shares Aggregates.Counts DistinctTexts.Lists a d) : a.Coherent ∧ d.Within a := by
  obtain ⟨rs, hpos, ha, hd⟩ := h
  exact ⟨ha.coherent, Aggregates.within_texts hpos ha hd⟩

theorem Shares.coherent_metrics {a : Aggregates} {m : Metrics}
    (h : Shares Aggregates.Counts Metrics.Tallies a m) : a.Coherent ∧ m.Within a := by
  obtain ⟨rs, hpos, ha, hm⟩ := h
  exact ⟨ha.coherent, Aggregates.within_metrics hpos ha hm⟩

end EventBuckets
