import Mathlib
import EventBuckets.Bucket.Metrics
import EventBuckets.Bucket.Texts
import EventBuckets.Event

/-!
# Buckets as folds of records

What a bucket says after it took records one after the other.

* `Recorded`                      an event that belongs to a pair and counts;
* `Aggregates.take`, `DistinctTexts.take`, `Metrics.take`
                                  what a record does to a bucket of each kind;
* `SumsTo`                        a map that holds the positive values of a function;
* `sumsTo_counts`, `sumsTo_influencers`, `mem_nulls`
                                  the counts of a bucket are sums over the records it took;
* `holds_foldl`, `get?_foldl`     the texts and the statistics of a pair.
-/

set_option linter.unusedSectionVars false

namespace EventBuckets

/-- an event of a pair that counts -/
structure Recorded where
  time : Int
  pair : Pair
  count : Nat
  event : Event

namespace Recorded

/-- whether a record counts for a pair -/
def isOf (p : Pair) (r : Recorded) : Bool := !r.event.isNull && decide (r.pair = p)

/-- whether a record is an explicit null of a pair -/
def isNullOf (p : Pair) (r : Recorded) : Bool := r.event.isNull && decide (r.pair = p)

/-- whether a record counts for a pair and a text in an influencing field -/
def isFor (field : Nat) (m : Mention) (r : Recorded) : Bool :=
  r.isOf m.pair && decide (r.event.influences[field]? = some (some m.text))

/-- the counts of the chosen records, summed up -/
def total (chosen : Recorded → Bool) (records : List Recorded) : Nat :=
  ((records.filter chosen).map Recorded.count).sum

@[simp] theorem total_nil (chosen : Recorded → Bool) : total chosen [] = 0 := rfl

theorem total_cons (chosen : Recorded → Bool) (r : Recorded) (rs : List Recorded) :
    total chosen (r :: rs) = (if chosen r then r.count else 0) + total chosen rs := by
  unfold total
  rw [List.filter_cons]
  split
  · simp
  · simp

theorem total_append (chosen : Recorded → Bool) (rs rs' : List Recorded) :
    total chosen (rs ++ rs') = total chosen rs + total chosen rs' := by
  simp [total]

theorem total_filter (chosen among : Recorded → Bool) (rs : List Recorded) :
    total chosen (rs.filter among) = total (fun r => chosen r && among r) rs := by
  unfold total
  rw [List.filter_filter]

/-- sums over records that are chosen in one of two ways -/
theorem total_add {chosen a b : Recorded → Bool} {rs : List Recorded}
    (h : ∀ r ∈ rs, (chosen r = true ↔ a r = true ∨ b r = true) ∧ ¬(a r = true ∧ b r = true)) :
    total chosen rs = total a rs + total b rs := by
  induction rs with
  | nil => rfl
  | cons r rs ih =>
    obtain ⟨hor, hand⟩ := h r List.mem_cons_self
    rw [total_cons, total_cons, total_cons, ih fun x hx => h x (List.mem_cons_of_mem _ hx)]
    by_cases ha : a r = true
    · have hb : ¬b r = true := fun hb => hand ⟨ha, hb⟩
      rw [if_pos (hor.mpr (.inl ha)), if_pos ha, if_neg hb]
      omega
    · by_cases hb : b r = true
      · rw [if_pos (hor.mpr (.inr hb)), if_neg ha, if_pos hb]
        omega
      · rw [if_neg fun hc => (hor.mp hc).elim ha hb, if_neg ha, if_neg hb]
        omega

/-- some chosen record counts iff the sum is positive -/
theorem total_pos {chosen : Recorded → Bool} {rs : List Recorded} (h : ∀ r ∈ rs, 0 < r.count) :
    0 < total chosen rs ↔ ∃ r ∈ rs, chosen r = true := by
  induction rs with
  | nil => simp
  | cons r rs ih =>
    have hr := h r List.mem_cons_self
    have ih := ih fun r hr => h r (List.mem_cons_of_mem _ hr)
    rw [total_cons]
    simp only [List.mem_cons, exists_eq_or_imp]
    rw [← ih]
    by_cases hc : chosen r = true
    · simp only [hc, if_true, true_or, iff_true]
      exact Nat.add_pos_left hr _
    · simp [hc]

end Recorded

def Aggregates.take (a : Aggregates) (r : Recorded) : Aggregates :=
  if r.event.isNull then a.markNull r.pair
  else (a.countPair r.pair r.count).countInfluences r.pair r.event.influences r.count

/-- takes a record, whose text counts if it has one -/
def DistinctTexts.take (d : DistinctTexts) (r : Recorded) : DistinctTexts :=
  if r.event.isNull then d
  else
    match r.event.text with
    | some text => d.insert r.pair text
    | none => d

def Metrics.take (m : Metrics) (r : Recorded) : Metrics :=
  if r.event.isNull then m else m.add r.pair r.event.values

/-! ## entries -/

section Entries
variable {κ β : Type} [Ord κ] [Std.TransOrd κ] [Std.LawfulEqOrd κ]

theorem nodup_keys_toList (m : Std.ExtTreeMap κ β compare) : (m.toList.map Prod.fst).Nodup :=
  List.pairwise_map.mpr <| m.distinct_keys_toList.imp fun hne e =>
    hne (Std.LawfulEqOrd.compare_eq_iff_eq.mpr e)

theorem nodup_toList (s : Std.ExtTreeSet κ compare) : s.toList.Nodup :=
  s.distinct_toList.imp fun hne e => hne (Std.LawfulEqOrd.compare_eq_iff_eq.mpr e)

end Entries

/-! ## sums -/

section Sums
variable {κ : Type} [Ord κ] [Std.TransOrd κ] [Std.LawfulEqOrd κ] [DecidableEq κ]

/-- the map holds the positive values of the function -/
def SumsTo (m : Std.ExtTreeMap κ Nat compare) (f : κ → Nat) : Prop :=
  ∀ k, m[k]? = if 0 < f k then some (f k) else none

variable {m : Std.ExtTreeMap κ Nat compare} {f : κ → Nat}

theorem SumsTo.mem_toList (h : SumsTo m f) (k : κ) (n : Nat) :
    (k, n) ∈ m.toList ↔ 0 < n ∧ n = f k := by
  rw [Std.ExtTreeMap.mem_toList_iff_getElem?_eq_some, h k]
  split
  · simp
    omega
  · simp
    omega

theorem SumsTo.contains (h : SumsTo m f) (k : κ) : m.contains k = true ↔ 0 < f k := by
  rw [Std.ExtTreeMap.contains_eq_isSome_getElem?, h k]
  split <;> simp [*]

theorem sumsTo_empty : SumsTo (∅ : Std.ExtTreeMap κ Nat compare) fun _ => 0 := by
  intro k
  simp

theorem getElem?_addTo (m : Std.ExtTreeMap κ Nat compare) (k j : κ) (n : Nat) :
    (addTo m k n)[j]? = if k = j then some (m[j]?.getD 0 + n) else m[j]? := by
  unfold addTo
  rw [Std.ExtTreeMap.getElem?_alter]
  simp only [Std.LawfulEqOrd.compare_eq_iff_eq]
  split
  next e => rw [e]
  next => rfl

/-- under each key the numbers of its members are summed up -/
theorem getD_sumBy {α : Type} (key : α → κ) (number : α → Nat) (as : List α) (k : κ) :
    (sumBy key number as)[k]?.getD 0 = ((as.filter fun a => key a = k).map number).sum := by
  have go (m : Std.ExtTreeMap κ Nat compare) :
      (as.foldl (fun m a => EventBuckets.addTo m (key a) (number a)) m)[k]?.getD 0 =
        m[k]?.getD 0 + ((as.filter fun a => key a = k).map number).sum := by
    induction as generalizing m with
    | nil => rfl
    | cons a as ih =>
      rw [List.foldl_cons, ih, getElem?_addTo, List.filter_cons]
      by_cases e : key a = k
      · rw [if_pos e, if_pos (decide_eq_true e), Option.getD_some, List.map_cons, List.sum_cons,
          Nat.add_assoc]
      · rw [if_neg e, if_neg (by simpa using e)]
  unfold sumBy
  rw [go, Std.ExtTreeMap.getElem?_empty, Option.getD_none, Nat.zero_add]

theorem SumsTo.addTo (h : SumsTo m f) (k : κ) {n : Nat} (hn : 0 < n) :
    SumsTo (EventBuckets.addTo m k n) fun j => f j + if k = j then n else 0 := by
  intro j
  rw [getElem?_addTo, h j]
  simp only
  by_cases e : k = j
  · have hpos : 0 < f j + n := by omega
    rw [if_pos e, if_pos e, if_pos hpos]
    by_cases hf : 0 < f j
    · rw [if_pos hf, Option.getD_some]
    · rw [if_neg hf, Option.getD_none, Nat.eq_zero_of_not_pos hf]
  · rw [if_neg e, if_neg e, Nat.add_zero]

theorem SumsTo.getD (h : SumsTo m f) (k : κ) : m[k]?.getD 0 = f k := by
  rw [h k]
  split
  · rfl
  next hzero => exact (Nat.eq_zero_of_not_pos hzero).symm

/-- a map is determined by the numbers it sums up -/
theorem SumsTo.ext {m' : Std.ExtTreeMap κ Nat compare} (h : SumsTo m f) (h' : SumsTo m' f) :
    m = m' :=
  Std.ExtTreeMap.ext_getElem? fun k => (h k).trans (h' k).symm

/-! ### entries -/

theorem mem_foldl_insert (ks : List κ) (base : Std.ExtTreeSet κ compare) (k : κ) :
    k ∈ ks.foldl (fun acc k => acc.insert k) base ↔ k ∈ ks ∨ k ∈ base := by
  induction ks generalizing base with
  | nil => simp
  | cons x xs ih =>
    rw [List.foldl_cons, ih, Std.ExtTreeSet.mem_insert, List.mem_cons,
      Std.LawfulEqOrd.compare_eq_iff_eq, eq_comm (a := k), or_left_comm, or_assoc]

theorem sum_filter_of_not_mem {es : List (κ × Nat)} {k : κ} (h : ∀ n, (k, n) ∉ es) :
    ((es.filter fun e => e.1 = k).map Prod.snd).sum = 0 := by
  have hnone : es.filter (fun e => e.1 = k) = [] := by
    apply List.filter_eq_nil_iff.mpr
    intro e he hk
    rw [decide_eq_true_eq] at hk
    exact h e.2 (hk ▸ he)
  rw [hnone]
  rfl

theorem sum_filter_of_mem {es : List (κ × Nat)} (hd : es.Pairwise fun a b => a.1 ≠ b.1) {k : κ}
    {n : Nat} (hn : (k, n) ∈ es) : ((es.filter fun e => e.1 = k).map Prod.snd).sum = n := by
  induction es with
  | nil => cases hn
  | cons e es ih =>
    obtain ⟨hfirst, hrest⟩ := List.pairwise_cons.mp hd
    rw [List.filter_cons]
    rcases List.mem_cons.mp hn with rfl | hn
    · -- no further entry has this key
      have hnone : ∀ m, (k, m) ∉ es := fun m hm => hfirst _ hm rfl
      rw [if_pos (decide_eq_true rfl), List.map_cons, List.sum_cons, sum_filter_of_not_mem hnone,
        Nat.add_zero]
    · have hne : e.1 ≠ k := hfirst _ hn
      rw [if_neg (by simpa using hne)]
      exact ih hrest hn

/-- the numbers under a key of a map add up to the number there -/
theorem sum_filter_toList (m : Std.ExtTreeMap κ Nat compare) (k : κ) :
    ((m.toList.filter fun e => e.1 = k).map Prod.snd).sum = m[k]?.getD 0 := by
  have hd : m.toList.Pairwise fun a b => a.1 ≠ b.1 := List.pairwise_map.mp (nodup_keys_toList m)
  cases hk : m[k]? with
  | some n => exact sum_filter_of_mem hd (Std.ExtTreeMap.mem_toList_iff_getElem?_eq_some.mpr hk)
  | none =>
    apply sum_filter_of_not_mem
    intro n hn
    rw [Std.ExtTreeMap.mem_toList_iff_getElem?_eq_some, hk] at hn
    cases hn

end Sums

/-! ## counts -/

@[simp] theorem Aggregates.counts_empty : (∅ : Aggregates).counts = ∅ := rfl

@[simp] theorem Aggregates.nulls_empty : (∅ : Aggregates).nulls = ∅ := rfl

@[simp] theorem Aggregates.influencers_empty : (∅ : Aggregates).influencers = [] := rfl

@[simp] theorem DistinctTexts.byPair_empty : (∅ : DistinctTexts).byPair = ∅ := rfl

@[simp] theorem Metrics.byPair_empty : (∅ : Metrics).byPair = ∅ := rfl

theorem Aggregates.isEmpty_iff {a : Aggregates} :
    a.isEmpty = true ↔ a.counts = ∅ ∧ a.nulls = ∅ ∧ ∀ f ∈ a.influencers, f = ∅ := by
  unfold Aggregates.isEmpty
  simp only [Bool.and_eq_true, List.all_eq_true, Std.ExtTreeMap.isEmpty_iff,
    Std.ExtTreeSet.isEmpty_iff, and_assoc]

namespace Aggregates
open Recorded

/-- a record that counts adds to its pair, an explicit null to none -/
theorem sumsTo_counts_take {a : Aggregates} {f : Pair → Nat} (h : SumsTo a.counts f)
    {r : Recorded} (hr : 0 < r.count) :
    SumsTo (a.take r).counts fun p => f p + if r.isOf p then r.count else 0 := by
  unfold take isOf
  split
  next hnull => simpa [hnull, markNull] using h
  next hnull =>
    have := h.addTo r.pair hr
    simpa [hnull, countInfluences, countPair, addPositive, hr] using this

/-- a part of a bucket that each record adds to sums up the counts of all records -/
theorem sumsTo_foldl {κ : Type} [Ord κ] [Std.TransOrd κ]
    (part : Aggregates → Std.ExtTreeMap κ Nat compare) {chosen : κ → Recorded → Bool}
    (step : ∀ {a f r}, SumsTo (part a) f → 0 < r.count →
      SumsTo (part (a.take r)) fun k => f k + if chosen k r then r.count else 0)
    {rs : List Recorded} (hrs : ∀ r ∈ rs, 0 < r.count) {a : Aggregates} {f : κ → Nat}
    (h : SumsTo (part a) f) : SumsTo (part (rs.foldl take a)) fun k => f k + total (chosen k) rs := by
  induction rs generalizing a f with
  | nil => exact h
  | cons r rs ih =>
    have hr := hrs r List.mem_cons_self
    have hrest := ih (fun r hr => hrs r (List.mem_cons_of_mem _ hr)) (step h hr)
    simpa only [List.foldl_cons, total_cons, Nat.add_assoc] using hrest

theorem sumsTo_counts {rs : List Recorded} (hrs : ∀ r ∈ rs, 0 < r.count) {a : Aggregates}
    {f : Pair → Nat} (h : SumsTo a.counts f) :
    SumsTo (rs.foldl take a).counts fun p => f p + total (isOf p) rs :=
  sumsTo_foldl counts (fun h hr => sumsTo_counts_take h hr) hrs h

theorem getD_counts {rs : List Recorded} (hrs : ∀ r ∈ rs, 0 < r.count) (p : Pair) :
    (rs.foldl take ∅).counts[p]?.getD 0 = total (isOf p) rs := by
  have hsums := sumsTo_counts hrs (a := ∅) sumsTo_empty
  rw [hsums.getD, Nat.zero_add]

theorem mem_nulls {rs : List Recorded} {a : Aggregates} {p : Pair} :
    (rs.foldl take a).nulls.contains p = true ↔
      a.nulls.contains p = true ∨ ∃ r ∈ rs, r.isNullOf p = true := by
  induction rs generalizing a with
  | nil => simp
  | cons r rs ih =>
    have step : (a.take r).nulls.contains p = true ↔
        a.nulls.contains p = true ∨ r.isNullOf p = true := by
      unfold take isNullOf
      split
      next hnull =>
        simp only [hnull, markNull, Std.ExtTreeSet.contains_insert, Bool.or_eq_true,
          Std.LawfulEqCmp.compare_beq_iff_eq, Bool.true_and, decide_eq_true_eq]
        exact or_comm
      next hnull => simp [hnull, countInfluences, countPair]
    rw [List.foldl_cons, ih, step, or_assoc]
    simp only [List.mem_cons, exists_eq_or_imp]

/-! ## influences -/

theorem getElem?_addToFields (p : Pair) {n : Nat} (hn : 0 < n) (fields : List InfluenceCounts)
    (is : List (Option String)) (i : Nat) :
    (addToFields p n fields is)[i]?.getD ∅ =
      match is[i]? with
      | some (some text) => addTo (fields[i]?.getD ∅) ⟨p, text⟩ n
      | _ => fields[i]?.getD ∅ := by
  have one (f : InfluenceCounts) (x : Option String) : countInfluence f p x n =
      match x with
      | some text => addTo f ⟨p, text⟩ n
      | none => f := by
    cases x with
    | none => rfl
    | some text => exact if_neg (Nat.ne_of_gt hn)
  induction is generalizing fields i with
  | nil => simp [addToFields]
  | cons x is ih =>
    cases fields with
    | nil =>
      cases i with
      | zero => cases x <;> simp [addToFields, one]
      | succ i => simpa [addToFields] using ih [] i
    | cons f fields =>
      cases i with
      | zero => cases x <;> simp [addToFields, one]
      | succ i => simpa [addToFields] using ih fields i

theorem sumsTo_influencers_take {a : Aggregates} {i : Nat} {f : Mention → Nat}
    (h : SumsTo (a.influencers[i]?.getD ∅) f) {r : Recorded} (hr : 0 < r.count) :
    SumsTo ((a.take r).influencers[i]?.getD ∅) fun m =>
      f m + if r.isFor i m then r.count else 0 := by
  unfold take isFor isOf
  split
  next hnull => simpa [hnull, markNull] using h
  next hnull =>
    show SumsTo ((addToFields r.pair r.count a.influencers r.event.influences)[i]?.getD ∅) _
    rw [getElem?_addToFields r.pair hr]
    match hi : r.event.influences[i]? with
    | some (some text) =>
      have := h.addTo ⟨r.pair, text⟩ hr
      intro m
      rw [this m]
      have e : (Mention.mk r.pair text = m) ↔ r.pair = m.pair ∧ text = m.text := by
        cases m
        simp
      simp [hnull, e]
    | some none => simpa [hi] using h
    | none => simpa [hi] using h

theorem sumsTo_influencers {rs : List Recorded} (hrs : ∀ r ∈ rs, 0 < r.count) {a : Aggregates}
    {i : Nat} {f : Mention → Nat} (h : SumsTo (a.influencers[i]?.getD ∅) f) :
    SumsTo ((rs.foldl take a).influencers[i]?.getD ∅) fun m => f m + total (isFor i m) rs :=
  sumsTo_foldl (fun a => a.influencers[i]?.getD ∅) (fun h hr => sumsTo_influencers_take h hr) hrs h

end Aggregates

/-! ## texts and statistics -/

/-- whether a text is held for a pair -/
def DistinctTexts.Holds (d : DistinctTexts) (p : Pair) (text : String) : Prop :=
  ∃ texts, d.get? p = some texts ∧ text ∈ texts

namespace DistinctTexts

theorem holds_insert (d : DistinctTexts) (p q : Pair) (text other : String) :
    (d.insert p text).Holds q other ↔ d.Holds q other ∨ p = q ∧ text = other := by
  unfold Holds get? insert
  simp only [Std.ExtTreeMap.getElem?_alter, Std.LawfulEqOrd.compare_eq_iff_eq]
  by_cases e : p = q
  · subst e
    simp only [if_true, Option.some.injEq, exists_eq_left', Std.ExtTreeSet.mem_insert,
      Std.LawfulEqCmp.compare_eq_iff_eq, true_and]
    cases d.byPair[p]? with
    | none => simp
    | some texts => simp [or_comm]
  · simp [e]

/-- a record adds its text to its pair -/
theorem holds_take (d : DistinctTexts) (r : Recorded) (p : Pair) (text : String) :
    (d.take r).Holds p text ↔ d.Holds p text ∨ r.isOf p = true ∧ r.event.text = some text := by
  unfold take Recorded.isOf
  split
  next hnull => simp [hnull]
  next hnull =>
    split
    next other ht =>
      rw [holds_insert]
      simp [hnull, ht]
    next ht => simp [ht]

theorem holds_foldl (rs : List Recorded) (d : DistinctTexts) (p : Pair) (text : String) :
    (rs.foldl take d).Holds p text ↔
      d.Holds p text ∨ ∃ r ∈ rs, r.isOf p = true ∧ r.event.text = some text := by
  induction rs generalizing d with
  | nil => simp
  | cons r rs ih =>
    rw [List.foldl_cons, ih, holds_take, or_assoc]
    simp only [List.mem_cons, exists_eq_or_imp]

end DistinctTexts

namespace Metrics

/-- the statistics of measurements, after those before -/
def summaryOf (before : Option Summary) (records : List Recorded) : Option Summary :=
  records.foldl (fun s r => some ((s.getD ∅).add r.event.values)) before

theorem get?_take (m : Metrics) (r : Recorded) (p : Pair) :
    (m.take r).get? p =
      if r.isOf p then some (((m.get? p).getD ∅).add r.event.values) else m.get? p := by
  unfold take Recorded.isOf get? add
  split
  next hnull => simp [hnull]
  next hnull =>
    simp only [Std.ExtTreeMap.getElem?_alter, Std.LawfulEqOrd.compare_eq_iff_eq]
    by_cases e : r.pair = p
    · subst e
      simp [hnull]
    · simp [e]

/-- the statistics of a pair are those of its own records, in their order -/
theorem get?_foldl (rs : List Recorded) (m : Metrics) (p : Pair) :
    (rs.foldl take m).get? p = summaryOf (m.get? p) (rs.filter (Recorded.isOf p)) := by
  induction rs generalizing m with
  | nil => rfl
  | cons r rs ih =>
    rw [List.foldl_cons, ih, get?_take, List.filter_cons]
    split
    · rfl
    · rfl

end Metrics

end EventBuckets
