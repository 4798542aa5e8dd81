import EventBuckets.Proofs.History
import EventBuckets.Proofs.PlaceByPlace

/-!
# What buckets say of their records

A bucket that has dropped pairs is no fold of records any more, since the fields of its influencers
stay where they are.  Still it says the same as a fold: each count is a sum over the records of its
pair, and each text is one of theirs.

* `Aggregates.Counts`, `DistinctTexts.Lists`, `Metrics.Summarises`
                        a bucket of each kind says what its records come to;
* `exists_record`       only pairs with a record are said anything of;
* `Account.contents`    the three of them, which taking a record and dropping pairs keep to.
-/

set_option linter.unusedSectionVars false

namespace EventBuckets
open Recorded

/-! ## records of some pairs -/

/-- the records of the pairs that are kept -/
def Recorded.among (keeps : Pair → Bool) (rs : List Recorded) : List Recorded :=
  rs.filter fun x => keeps x.pair

namespace Recorded
variable {keeps : Pair → Bool} {p : Pair} {rs : List Recorded} {x : Recorded}

theorem pair_eq_of_isOf (h : x.isOf p = true) : x.pair = p := by
  unfold isOf at h
  rw [Bool.and_eq_true, decide_eq_true_eq] at h
  exact h.2

theorem pair_eq_of_isNullOf (h : x.isNullOf p = true) : x.pair = p := by
  unfold isNullOf at h
  rw [Bool.and_eq_true, decide_eq_true_eq] at h
  exact h.2

theorem isOf_of_isFor {i : Nat} {m : Mention} (h : x.isFor i m = true) : x.isOf m.pair = true := by
  unfold isFor at h
  exact (Bool.and_eq_true_iff.mp h).1

/-- of the records of one pair all are kept, or none -/
theorem filter_among {chosen : Recorded → Bool} (h : ∀ x, chosen x = true → x.pair = p)
    (keeps : Pair → Bool) (rs : List Recorded) :
    (among keeps rs).filter chosen = if keeps p then rs.filter chosen else [] := by
  unfold among
  rw [List.filter_filter]
  split
  next hp =>
    apply List.filter_congr
    intro x _
    by_cases hx : chosen x = true
    · rw [hx, h x hx, hp]
      rfl
    · rw [Bool.eq_false_iff.mpr hx]
      rfl
  next hp =>
    apply List.filter_eq_nil_iff.mpr
    intro x _ hx
    obtain ⟨hx, hk⟩ := Bool.and_eq_true_iff.mp hx
    exact hp (h x hx ▸ hk)

theorem total_among {chosen : Recorded → Bool} (h : ∀ x, chosen x = true → x.pair = p)
    (keeps : Pair → Bool) (rs : List Recorded) :
    total chosen (among keeps rs) = if keeps p then total chosen rs else 0 := by
  unfold total
  rw [filter_among h]
  split <;> rfl

theorem exists_of_total_pos {chosen : Recorded → Bool} (h : 0 < total chosen rs) :
    ∃ x ∈ rs, chosen x = true := by
  by_contra hnone
  have hempty : rs.filter chosen = [] :=
    List.filter_eq_nil_iff.mpr fun x hx hc => hnone ⟨x, hx, hc⟩
  unfold total at h
  rw [hempty] at h
  exact Nat.lt_irrefl 0 h

theorem exists_mem_snoc {P : Recorded → Prop} :
    (∃ y ∈ rs ++ [x], P y) ↔ (∃ y ∈ rs, P y) ∨ P x := by
  simp only [List.mem_append, List.mem_singleton, or_and_right, exists_or, exists_eq_left]

theorem exists_among {P : Recorded → Prop} (h : ∀ x, P x → x.pair = p) :
    (∃ x ∈ among keeps rs, P x) ↔ keeps p = true ∧ ∃ x ∈ rs, P x := by
  constructor
  · rintro ⟨x, hx, hP⟩
    obtain ⟨hx, hk⟩ := List.mem_filter.mp hx
    rw [h x hP] at hk
    exact ⟨hk, x, hx, hP⟩
  · rintro ⟨hk, x, hx, hP⟩
    refine ⟨x, List.mem_filter.mpr ⟨hx, ?_⟩, hP⟩
    rw [h x hP]
    exact hk

end Recorded

/-! ## counts -/

theorem SumsTo.filter {κ : Type} [Ord κ] [Std.TransOrd κ] [Std.LawfulEqOrd κ]
    {m : Std.ExtTreeMap κ Nat compare} {f : κ → Nat} (h : SumsTo m f) (keeps : κ → Bool) :
    SumsTo (m.filter fun k _ => keeps k) fun k => if keeps k then f k else 0 := by
  intro k
  rw [getElem?_filter_keys, h k]
  by_cases hk : keeps k = true
  · simp only [hk, if_true]
  · simp only [hk, if_false, Bool.false_eq_true, Nat.lt_irrefl]

theorem contains_filter {s : PairSet} {keeps : Pair → Bool} {p : Pair} :
    (s.filter keeps).contains p = true ↔ keeps p = true ∧ s.contains p = true := by
  rw [Std.ExtTreeSet.contains_iff_mem, Std.ExtTreeSet.contains_iff_mem, Std.ExtTreeSet.mem_filter]
  constructor
  · rintro ⟨hp, hk⟩
    rw [Std.ExtTreeSet.get_eq] at hk
    exact ⟨hk, hp⟩
  · rintro ⟨hk, hp⟩
    refine ⟨hp, ?_⟩
    rw [Std.ExtTreeSet.get_eq]
    exact hk

namespace Aggregates

/-- counts are sums over the records of a pair, and nulls are those of the records -/
structure Counts (a : Aggregates) (rs : List Recorded) : Prop where
  counts : SumsTo a.counts fun p => total (isOf p) rs
  nulls : ∀ p, a.nulls.contains p = true ↔ ∃ x ∈ rs, x.isNullOf p = true
  influencers : ∀ i, SumsTo (a.influencers[i]?.getD ∅) fun m => total (isFor i m) rs

variable {a : Aggregates} {rs : List Recorded} {x : Recorded}

theorem counts_nil : Counts ∅ [] := by
  refine ⟨sumsTo_empty, fun p => ?_, fun i => ?_⟩
  · simp
  · exact sumsTo_empty

theorem Counts.take (h : a.Counts rs) (hx : 0 < x.count) : (a.take x).Counts (rs ++ [x]) := by
  have hsum (chosen : Recorded → Bool) :
      total chosen (rs ++ [x]) = total chosen rs + if chosen x then x.count else 0 := by
    rw [total_append, total_cons, total_nil, Nat.add_zero]
  refine ⟨?_, fun p => ?_, fun i => ?_⟩
  · simp only [hsum]
    exact sumsTo_counts_take h.counts hx
  · have hnulls : ([x].foldl Aggregates.take a).nulls.contains p = true ↔ _ := mem_nulls
    show ([x].foldl Aggregates.take a).nulls.contains p = true ↔ _
    rw [hnulls, h.nulls, exists_mem_snoc]
    simp
  · simp only [hsum]
    exact sumsTo_influencers_take (h.influencers i) hx

theorem Counts.keep (h : a.Counts rs) (keeps : Pair → Bool) :
    (a.keep keeps).Counts (among keeps rs) := by
  refine ⟨?_, fun p => ?_, fun i => ?_⟩
  · have hkept := h.counts.filter keeps
    simp only [total_among fun x => pair_eq_of_isOf]
    exact hkept
  · show (a.nulls.filter keeps).contains p = true ↔ _
    rw [contains_filter, h.nulls, exists_among fun x => pair_eq_of_isNullOf]
  · have hkept := (h.influencers i).filter fun m => keeps m.pair
    have hfield : (a.keep keeps).influencers[i]?.getD ∅ =
        (a.influencers[i]?.getD ∅).filter fun m _ => keeps m.pair := by
      show (a.influencers.map _)[i]?.getD ∅ = _
      rw [List.getElem?_map]
      cases a.influencers[i]? with
      | none => rfl
      | some f => rfl
    rw [hfield]
    simp only [total_among fun x hx => pair_eq_of_isOf (isOf_of_isFor hx)]
    exact hkept

/-- whether a bucket says something of a pair -/
def Mentions (a : Aggregates) (p : Pair) : Prop :=
  a.counts.contains p = true ∨ a.nulls.contains p = true ∨
    ∃ f ∈ a.influencers, ∃ text, f.contains ⟨p, text⟩ = true

theorem Counts.exists_record {p : Pair} (h : a.Counts rs) (hp : a.Mentions p) :
    ∃ x ∈ rs, x.pair = p := by
  rcases hp with hp | hp | ⟨f, hf, text, hp⟩
  · obtain ⟨x, hx, hof⟩ := exists_of_total_pos ((h.counts.contains p).mp hp)
    exact ⟨x, hx, pair_eq_of_isOf hof⟩
  · obtain ⟨x, hx, hof⟩ := (h.nulls p).mp hp
    exact ⟨x, hx, pair_eq_of_isNullOf hof⟩
  · obtain ⟨i, hi, rfl⟩ := List.getElem_of_mem hf
    have hsums := h.influencers i
    rw [List.getElem?_eq_getElem hi, Option.getD_some] at hsums
    obtain ⟨x, hx, hfor⟩ := exists_of_total_pos ((hsums.contains _).mp hp)
    exact ⟨x, hx, pair_eq_of_isOf (isOf_of_isFor hfor)⟩

end Aggregates

/-! ## texts and statistics -/

namespace DistinctTexts

/-- the texts of a pair are those of its records -/
structure Lists (d : DistinctTexts) (rs : List Recorded) : Prop where
  listed : ∀ p, (d.get? p).isSome = true ↔ ∃ x ∈ rs, x.isOf p = true ∧ x.event.text.isSome = true
  holds : ∀ p text, d.Holds p text ↔ ∃ x ∈ rs, x.isOf p = true ∧ x.event.text = some text

variable {d : DistinctTexts} {rs : List Recorded} {x : Recorded}

theorem lists_nil : Lists ∅ [] := by
  refine ⟨fun p => ?_, fun p text => ?_⟩
  · simp [get?]
  · simp [Holds, get?]

theorem isSome_get?_insert (d : DistinctTexts) (p q : Pair) (text : String) :
    ((d.insert p text).get? q).isSome = true ↔ (d.get? q).isSome = true ∨ p = q := by
  unfold get? insert
  simp only [Std.ExtTreeMap.getElem?_alter, Std.LawfulEqOrd.compare_eq_iff_eq]
  by_cases e : p = q
  · simp [e]
  · simp [e]

theorem Lists.take (h : d.Lists rs) (x : Recorded) : (d.take x).Lists (rs ++ [x]) := by
  refine ⟨fun p => ?_, fun p text => ?_⟩
  · rw [exists_mem_snoc, ← h.listed]
    unfold DistinctTexts.take isOf
    split
    next hnull => simp [hnull]
    next hnull =>
      split
      next text ht =>
        rw [isSome_get?_insert, ht]
        simp [hnull]
      next ht => simp [ht]
  · rw [holds_take, h.holds, exists_mem_snoc]

theorem Lists.keep (h : d.Lists rs) (keeps : Pair → Bool) :
    Lists ⟨d.byPair.filter fun p _ => keeps p⟩ (among keeps rs) := by
  have hget (p : Pair) : get? ⟨d.byPair.filter fun p _ => keeps p⟩ p =
      if keeps p then d.get? p else none := getElem?_filter_keys d.byPair keeps p
  refine ⟨fun p => ?_, fun p text => ?_⟩
  · rw [exists_among fun x hx => pair_eq_of_isOf hx.1, ← h.listed, hget]
    by_cases hp : keeps p = true
    · simp [hp]
    · simp [hp]
  · rw [exists_among fun x hx => pair_eq_of_isOf hx.1, ← h.holds]
    unfold Holds
    rw [hget]
    by_cases hp : keeps p = true
    · simp [hp]
    · simp [hp]

theorem Lists.exists_record {p : Pair} (h : d.Lists rs) (hp : (d.get? p).isSome = true) :
    ∃ x ∈ rs, x.pair = p := by
  obtain ⟨x, hx, hof, -⟩ := (h.listed p).mp hp
  exact ⟨x, hx, pair_eq_of_isOf hof⟩

end DistinctTexts

namespace Metrics

/-- the statistics of a pair are those of its records -/
def Summarises (m : Metrics) (rs : List Recorded) : Prop :=
  ∀ p, m.get? p = summaryOf none (rs.filter (isOf p))

variable {m : Metrics} {rs : List Recorded} {x : Recorded}

theorem summarises_nil : Summarises ∅ [] := by
  intro p
  simp [get?, summaryOf]

theorem Summarises.take (h : m.Summarises rs) (x : Recorded) :
    (m.take x).Summarises (rs ++ [x]) := by
  intro p
  rw [get?_take, h p, List.filter_append]
  unfold summaryOf
  rw [List.foldl_append]
  by_cases hx : x.isOf p = true
  · rw [if_pos hx, List.filter_cons_of_pos hx]
    rfl
  · rw [if_neg hx, List.filter_cons_of_neg hx]
    rfl

theorem Summarises.keep (h : m.Summarises rs) (keeps : Pair → Bool) :
    Summarises ⟨m.byPair.filter fun p _ => keeps p⟩ (among keeps rs) := by
  intro p
  have hget : get? ⟨m.byPair.filter fun p _ => keeps p⟩ p = if keeps p then m.get? p else none :=
    getElem?_filter_keys m.byPair keeps p
  rw [hget, h p, filter_among fun x => pair_eq_of_isOf]
  split <;> rfl

theorem Summarises.exists_record {p : Pair} (h : m.Summarises rs)
    (hp : (m.get? p).isSome = true) : ∃ x ∈ rs, x.pair = p := by
  rw [h p] at hp
  cases hrs : rs.filter (isOf p) with
  | nil =>
    rw [hrs] at hp
    cases hp
  | cons x xs =>
    have hmem : x ∈ rs.filter (isOf p) := hrs ▸ List.mem_cons_self
    obtain ⟨hx, hof⟩ := List.mem_filter.mp hmem
    exact ⟨x, hx, pair_eq_of_isOf hof⟩

end Metrics

/-! ## accounts -/

/-- each bucket says what its records come to -/
def Account.contents : Account := ⟨Aggregates.Counts, DistinctTexts.Lists, Metrics.Summarises⟩

theorem Account.lawful_contents : contents.Lawful where
  counts := ⟨Aggregates.counts_nil, Aggregates.Counts.take⟩
  texts := ⟨DistinctTexts.lists_nil, fun h _ => h.take _⟩
  metrics := ⟨Metrics.summarises_nil, fun h _ => h.take _⟩

namespace Series
variable {s : Series} {c : Config} {start lo : Int} {kind : SeriesKind} {rs : List Recorded}

theorem Tells.retainPeople (hf : s.Fits c start kind) (h : s.Tells .contents lo rs)
    (keeps : Nat → Bool) :
    (s.retainPeople keeps).Tells .contents lo (among (fun p => keeps p.person) rs) := by
  cases hf with
  | occurrences window =>
    exact Ring.Tells.retain window.ring.sound h fun d ds hd => DistinctTexts.Lists.keep hd _
  | measured window samples weight =>
    exact Ring.Tells.retain window.ring.sound h fun m ms hm => Metrics.Summarises.keep hm _

theorem Tells.retainAttributes (hf : s.Fits c start kind) (h : s.Tells .contents lo rs)
    (keeps : Nat → Bool) :
    (s.retainAttributes keeps).Tells .contents lo (among (fun p => keeps p.attr) rs) := by
  cases hf with
  | occurrences window =>
    exact Ring.Tells.retain window.ring.sound h fun d ds hd => DistinctTexts.Lists.keep hd _
  | measured window samples weight =>
    exact Ring.Tells.retain window.ring.sound h fun m ms hm => Metrics.Summarises.keep hm _

end Series

namespace Gatherer
variable {g : Gatherer} {kind : SeriesKind} {c : Config} {lo : Int} {rs : List Recorded}

theorem Tells.retainPeople (hs : g.Sound kind c) (h : g.Tells .contents lo rs)
    (keeps : Nat → Bool) :
    (g.retainPeople keeps).Tells .contents lo (among (fun p => keeps p.person) rs) where
  counts := h.counts.retain hs.counts.ring.sound fun _ _ ha => ha.keep _
  series := h.series.retainPeople hs.series keeps

theorem Tells.retainAttributes (hs : g.Sound kind c) (h : g.Tells .contents lo rs)
    (keeps : Nat → Bool) :
    (g.retainAttributes keeps).Tells .contents lo (among (fun p => keeps p.attr) rs) where
  counts := h.counts.retain hs.counts.ring.sound fun _ _ ha => ha.keep _
  series := h.series.retainAttributes hs.series keeps

end Gatherer

end EventBuckets
