import EventBuckets.Proofs.Arithmetic
import EventBuckets.Proofs.SameRecords

/-!
# Statistics of lists of measurements

Merged statistics are those of all measurements, however these were divided among the two, and of
whatever dimensions they are.  In each dimension the least and the greatest value are those of the
measurements that have one there.

* `Binary64.Picks`         an operation that gives one of two finite floats, the first in an order;
* `picks_min`, `picks_max` the lesser and the greater one are picked, in opposite orders;
* `Summary.ofAll`          the statistics of a list of measurements;
* `components`             the values of measurements in a dimension;
* `IsFirst`                the first one of floats in an order, if there is any;
* `mergeWith_ofAll`        merging is collecting, and the extrema are those of the components.
-/

namespace EventBuckets

/-! ## the lesser and the greater float -/

namespace Binary64
variable {a b : Binary64}

theorem min_assoc (a b x : Binary64) :
    Binary64.min (Binary64.min a b) x = Binary64.min a (Binary64.min b x) := by
  unfold Binary64.min
  grind

theorem max_assoc (a b x : Binary64) :
    Binary64.max (Binary64.max a b) x = Binary64.max a (Binary64.max b x) := by
  unfold Binary64.max
  grind

instance : Std.Associative Binary64.min := ⟨min_assoc⟩

instance : Std.Associative Binary64.max := ⟨max_assoc⟩

/-- one of two floats is given, and of finite ones the first in an order of their values -/
structure Picks (f : Binary64 → Binary64 → Binary64) (le : ℚ → ℚ → Prop) : Prop where
  refl : ∀ q, le q q
  trans : ∀ {p q r}, le p q → le q r → le p r
  choice : ∀ a b, f a b = a ∨ f a b = b
  first : ∀ {a b : Binary64}, a.isFinite = true → b.isFinite = true →
    le (f a b).value a.value ∧ le (f a b).value b.value

theorem picks_min : Picks Binary64.min (· ≤ ·) where
  refl := le_refl
  trans := le_trans
  choice a b := by
    unfold Binary64.min
    grind
  first {a b} ha hb := by
    unfold Binary64.min
    rw [isNaN_of_isFinite ha, isNaN_of_isFinite hb]
    simp only [Bool.false_eq_true, if_false, key_lt_iff hb ha]
    split
    next hlt => exact ⟨hlt.le, le_rfl⟩
    next hle => exact ⟨le_rfl, not_lt.mp hle⟩

theorem picks_max : Picks Binary64.max (· ≥ ·) where
  refl := le_refl
  trans := ge_trans
  choice a b := by
    unfold Binary64.max
    grind
  first {a b} ha hb := by
    unfold Binary64.max
    rw [isNaN_of_isFinite ha, isNaN_of_isFinite hb]
    simp only [Bool.false_eq_true, if_false, key_lt_iff ha hb]
    split
    next hlt => exact ⟨hlt.le, le_rfl⟩
    next hle => exact ⟨le_rfl, not_lt.mp hle⟩

end Binary64

/-! ## folding measurements of any dimensions -/

/-- the values of measurements in a dimension, of those that have one -/
def components (i : Nat) (vs : List (List Binary64)) : List Binary64 := vs.filterMap fun v => v[i]?

/-- the first one of floats in an order of their values, and none if there are none -/
def IsFirst (le : ℚ → ℚ → Prop) (xs : List Binary64) : Option Binary64 → Prop
  | none => xs = []
  | some x => x ∈ xs ∧ ∀ y ∈ xs, le x.value y.value

section
variable {f : Binary64 → Binary64 → Binary64} {le : ℚ → ℚ → Prop}

/-- the lists after some first one may be folded on their own -/
theorem foldl_zipLonger [Std.Associative f] (as : List Binary64) (vs : List (List Binary64)) :
    vs.foldl (zipLonger f) as = zipLonger f as (vs.foldl (zipLonger f) []) := by
  induction vs generalizing as with
  | nil => exact (zipLonger_nil f as).symm
  | cons v vs ih =>
    rw [List.foldl_cons, List.foldl_cons, ih, ih (zipLonger f [] v)]
    exact zipLonger_assoc fun a _ b _ x _ => Std.Associative.assoc a b x

theorem IsFirst.merge (hf : Binary64.Picks f le) {xs : List Binary64} {o : Option Binary64}
    (h : IsFirst le xs o) (hxs : ∀ x ∈ xs, x.isFinite = true) {x : Binary64}
    (hx : x.isFinite = true) : IsFirst le (xs ++ [x]) (Option.merge f o (some x)) := by
  cases o with
  | none =>
    obtain rfl : xs = [] := h
    exact ⟨List.mem_singleton_self x, fun y hy => List.mem_singleton.mp hy ▸ hf.refl _⟩
  | some y =>
    obtain ⟨hmem, hleast⟩ : y ∈ xs ∧ ∀ z ∈ xs, le y.value z.value := h
    obtain ⟨hy, hx⟩ := hf.first (hxs y hmem) hx
    refine ⟨?_, fun z hz => ?_⟩
    · rcases hf.choice y x with heq | heq
      · rw [heq]
        exact List.mem_append_left _ hmem
      · rw [heq]
        exact List.mem_append_right _ (List.mem_singleton_self x)
    · rcases List.mem_append.mp hz with hz | hz
      · exact hf.trans hy (hleast z hz)
      · exact List.mem_singleton.mp hz ▸ hx

/-- in each dimension only the measurements count that have a value there -/
theorem isFirst_foldl (hf : Binary64.Picks f le) {vs : List (List Binary64)}
    (hvs : ∀ v ∈ vs, ∀ x ∈ v, x.isFinite = true) (i : Nat) :
    IsFirst le (components i vs) (vs.foldl (zipLonger f) [])[i]? := by
  induction vs using List.reverseRecOn with
  | nil => rfl
  | append_singleton vs v ih =>
    have hfirst := ih fun w hw => hvs w (List.mem_append_left _ hw)
    have hfinite : ∀ x ∈ components i vs, x.isFinite = true := by
      intro x hx
      obtain ⟨w, hw, hwx⟩ := List.mem_filterMap.mp hx
      exact hvs w (List.mem_append_left _ hw) x (List.mem_of_getElem? hwx)
    rw [List.foldl_append, List.foldl_cons, List.foldl_nil, getElem?_zipLonger]
    unfold components at hfirst hfinite ⊢
    rw [List.filterMap_append]
    cases hv : v[i]? with
    | none => simpa [hv] using hfirst
    | some x =>
      have hx : x.isFinite = true := hvs v (by simp) x (List.mem_of_getElem? hv)
      simpa [hv] using hfirst.merge hf hfinite hx

end

/-! ## statistics -/

namespace Summary
variable {s : Summary}

theorem min_add (s : Summary) (v : List Binary64) :
    (s.add v).min = zipLonger Binary64.min s.min v := by
  unfold add
  split
  next hv => rw [List.isEmpty_iff.mp hv, zipLonger_nil]
  next => rfl

theorem max_add (s : Summary) (v : List Binary64) :
    (s.add v).max = zipLonger Binary64.max s.max v := by
  unfold add
  split
  next hv => rw [List.isEmpty_iff.mp hv, zipLonger_nil]
  next => rfl

/-- the statistics of a list of measurements -/
def ofAll (vs : List (List Binary64)) : Summary := vs.foldl add ∅

theorem min_ofAll (vs : List (List Binary64)) :
    (ofAll vs).min = vs.foldl (zipLonger Binary64.min) [] :=
  (List.foldl_hom min fun s v => (min_add s v).symm).symm

theorem max_ofAll (vs : List (List Binary64)) :
    (ofAll vs).max = vs.foldl (zipLonger Binary64.max) [] :=
  (List.foldl_hom max fun s v => (max_add s v).symm).symm

/-- measurements without values are none -/
theorem count_ofAll (vs : List (List Binary64)) :
    (ofAll vs).count = (vs.filter fun v => !v.isEmpty).length := by
  induction vs using List.reverseRecOn with
  | nil => rfl
  | append_singleton vs v ih =>
    unfold ofAll at ih ⊢
    rw [List.foldl_append, List.foldl_cons, List.foldl_nil, Metrics.count_add, ih,
      List.filter_append, List.length_append]
    cases hv : v.isEmpty <;> simp [hv]

/-- merged statistics have the number and the extrema of all measurements, which in each dimension
are the least and the greatest value of those that have one, and extrema are merged in any grouping -/
theorem mergeWith_ofAll (xs ys : List (List Binary64))
    (hfinite : ∀ v ∈ xs ++ ys, ∀ x ∈ v, x.isFinite = true) :
    ((ofAll xs).mergeWith (ofAll ys)).count = (ofAll (xs ++ ys)).count ∧
      ((ofAll xs).mergeWith (ofAll ys)).min = (ofAll (xs ++ ys)).min ∧
      ((ofAll xs).mergeWith (ofAll ys)).max = (ofAll (xs ++ ys)).max ∧
      (∀ i, IsFirst (· ≤ ·) (components i (xs ++ ys)) (ofAll (xs ++ ys)).min[i]?) ∧
      (∀ i, IsFirst (· ≥ ·) (components i (xs ++ ys)) (ofAll (xs ++ ys)).max[i]?) ∧
      ∀ s t u : Summary,
        ((s.mergeWith t).mergeWith u).min = (s.mergeWith (t.mergeWith u)).min ∧
        ((s.mergeWith t).mergeWith u).max = (s.mergeWith (t.mergeWith u)).max := by
  refine ⟨?_, ?_, ?_, fun i => ?_, fun i => ?_, fun s t u => ⟨?_, ?_⟩⟩
  · show (ofAll xs).count + (ofAll ys).count = _
    rw [count_ofAll, count_ofAll, count_ofAll, List.filter_append, List.length_append]
  · show zipLonger Binary64.min (ofAll xs).min (ofAll ys).min = _
    rw [min_ofAll, min_ofAll, min_ofAll, List.foldl_append, ← foldl_zipLonger]
  · show zipLonger Binary64.max (ofAll xs).max (ofAll ys).max = _
    rw [max_ofAll, max_ofAll, max_ofAll, List.foldl_append, ← foldl_zipLonger]
  · rw [min_ofAll]
    exact isFirst_foldl Binary64.picks_min hfinite i
  · rw [max_ofAll]
    exact isFirst_foldl Binary64.picks_max hfinite i
  · exact zipLonger_assoc fun a _ b _ x _ => Binary64.min_assoc a b x
  · exact zipLonger_assoc fun a _ b _ x _ => Binary64.max_assoc a b x

/-- measurements of two, no, one and three dimensions -/
theorem mergeWith_ofAll_ragged :
    let xs : List (List Binary64) := [[1, 0], []]
    let ys : List (List Binary64) := [[0], [1, 1, 1]]
    (∀ v ∈ xs ++ ys, ∀ x ∈ v, x.isFinite = true) ∧
      ((ofAll xs).mergeWith (ofAll ys)).count = 3 ∧
      ((ofAll xs).mergeWith (ofAll ys)).min = [0, 0, 1] ∧
      ((ofAll xs).mergeWith (ofAll ys)).max = [1, 1, 1] ∧
      IsFirst (· ≤ ·) (components 1 (xs ++ ys)) (some 0) := by
  intro xs ys
  have hfinite : ∀ v ∈ xs ++ ys, ∀ x ∈ v, x.isFinite = true := by decide
  obtain ⟨hcount, hmin, hmax, hleast, -, -⟩ := mergeWith_ofAll xs ys hfinite
  exact ⟨hfinite, hcount.trans (by decide), hmin.trans (by decide), hmax.trans (by decide), hleast 1⟩

end Summary

end EventBuckets
