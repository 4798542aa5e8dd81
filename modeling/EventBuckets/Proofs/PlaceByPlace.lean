import EventBuckets.Proofs.Folds

/-!
# Data combined place by place

Lists are combined position by position, maps key by key, and sets member by member.  A place that
only one of two has is taken as it is, as if the other one had an identity there, so in each case the
operation on the values passes its laws on.

* `getElem?_zipLonger`, `zipLonger_assoc`, `zipLonger_comm`
                               lists of any lengths;
* `mem_foldl_set_insert`, `foldl_set_insert_assoc`, `foldl_set_insert_comm`
                               sets;
* `getElem?_foldl_entries`, `getElem?_foldl_alter`
                               maps, the entries of which are put in one after the other;
* `EachValue`                  all values of a map have a property.
-/

set_option linter.unusedSectionVars false

namespace EventBuckets

/-! ## lists -/

section
variable {α : Type} {f : α → α → α}

theorem getElem?_zipLonger (f : α → α → α) (as bs : List α) (i : Nat) :
    (zipLonger f as bs)[i]? = Option.merge f as[i]? bs[i]? := by
  induction as generalizing bs i with
  | nil => simp [zipLonger]
  | cons a as ih =>
    cases bs with
    | nil => simp
    | cons b bs =>
      cases i with
      | zero => rfl
      | succ i => exact ih bs i

theorem zipLonger_assoc {as bs cs : List α}
    (h : ∀ a ∈ as, ∀ b ∈ bs, ∀ c ∈ cs, f (f a b) c = f a (f b c)) :
    zipLonger f (zipLonger f as bs) cs = zipLonger f as (zipLonger f bs cs) := by
  induction as generalizing bs cs with
  | nil => rfl
  | cons a as ih =>
    cases bs with
    | nil => rfl
    | cons b bs =>
      cases cs with
      | nil => simp [zipLonger]
      | cons c cs =>
        have hhead := h a List.mem_cons_self b List.mem_cons_self c List.mem_cons_self
        have htail := ih fun a ha b hb c hc => h a (List.mem_cons_of_mem _ ha) b
          (List.mem_cons_of_mem _ hb) c (List.mem_cons_of_mem _ hc)
        exact congrArg₂ List.cons hhead htail

theorem zipLonger_comm {as bs : List α} (h : ∀ a ∈ as, ∀ b ∈ bs, f a b = f b a) :
    zipLonger f as bs = zipLonger f bs as := by
  induction as generalizing bs with
  | nil => simp [zipLonger]
  | cons a as ih =>
    cases bs with
    | nil => rfl
    | cons b bs =>
      have htail := ih fun a ha b hb => h a (List.mem_cons_of_mem _ ha) b (List.mem_cons_of_mem _ hb)
      exact congrArg₂ List.cons (h a List.mem_cons_self b List.mem_cons_self) htail

theorem map_zipLonger {g : α → α} {as bs : List α}
    (h : ∀ a ∈ as, ∀ b ∈ bs, g (f a b) = f (g a) (g b)) :
    (zipLonger f as bs).map g = zipLonger f (as.map g) (bs.map g) := by
  induction as generalizing bs with
  | nil => rfl
  | cons a as ih =>
    cases bs with
    | nil => rfl
    | cons b bs =>
      have htail := ih fun a ha b hb => h a (List.mem_cons_of_mem _ ha) b (List.mem_cons_of_mem _ hb)
      exact congrArg₂ List.cons (h a List.mem_cons_self b List.mem_cons_self) htail

end

/-! ## sets and maps -/

section
variable {κ : Type} [Ord κ] [Std.TransOrd κ] [Std.LawfulEqOrd κ]

theorem mem_foldl_set_insert (s s' : Std.ExtTreeSet κ compare) (k : κ) :
    k ∈ s'.foldl (fun s k => s.insert k) s ↔ k ∈ s ∨ k ∈ s' := by
  classical
  rw [Std.ExtTreeSet.foldl_eq_foldl_toList, mem_foldl_insert, Std.ExtTreeSet.mem_toList, or_comm]

theorem foldl_set_insert_assoc (a b s : Std.ExtTreeSet κ compare) :
    s.foldl (fun s k => s.insert k) (b.foldl (fun s k => s.insert k) a) =
      (s.foldl (fun s k => s.insert k) b).foldl (fun s k => s.insert k) a :=
  Std.ExtTreeSet.ext_mem fun {k} => by simp only [mem_foldl_set_insert, or_assoc]

theorem foldl_set_insert_comm (a b : Std.ExtTreeSet κ compare) :
    b.foldl (fun s k => s.insert k) a = a.foldl (fun s k => s.insert k) b :=
  Std.ExtTreeSet.ext_mem fun {k} => by simp only [mem_foldl_set_insert, or_comm]

theorem foldl_set_insert_empty (s : Std.ExtTreeSet κ compare) :
    s.foldl (fun s k => s.insert k) ∅ = s :=
  Std.ExtTreeSet.ext_mem fun {k} => by
    simp [mem_foldl_set_insert, Std.ExtTreeSet.not_mem_empty]

variable {β γ : Type}

/-- entries with different keys change one place each -/
theorem getElem?_foldl_entries
    {step : Std.ExtTreeMap κ β compare → κ → γ → Std.ExtTreeMap κ β compare}
    {f : γ → Option β → Option β}
    (hown : ∀ m k v, (step m k v)[k]? = f v m[k]?)
    (hother : ∀ m k v j, k ≠ j → (step m k v)[j]? = m[j]?)
    (m : Std.ExtTreeMap κ β compare) (m' : Std.ExtTreeMap κ γ compare) (k : κ) :
    (m'.foldl step m)[k]? = m'[k]?.elim m[k]? fun v => f v m[k]? := by
  rw [Std.ExtTreeMap.foldl_eq_foldl_toList]
  have habsent (es : List (κ × γ)) (m : Std.ExtTreeMap κ β compare) (hno : ∀ v, (k, v) ∉ es) :
      (es.foldl (fun m e => step m e.1 e.2) m)[k]? = m[k]? := by
    induction es generalizing m with
    | nil => rfl
    | cons e es ih =>
      have hne : e.1 ≠ k := fun h => hno e.2 (h ▸ List.mem_cons_self)
      rw [List.foldl_cons, ih _ fun v hv => hno v (List.mem_cons_of_mem _ hv), hother _ _ _ _ hne]
  cases hk : m'[k]? with
  | none =>
    refine habsent _ m fun v hv => ?_
    rw [Std.ExtTreeMap.mem_toList_iff_getElem?_eq_some, hk] at hv
    cases hv
  | some v =>
    obtain ⟨before, after, hsplit⟩ :=
      List.append_of_mem (Std.ExtTreeMap.mem_toList_iff_getElem?_eq_some.mpr hk)
    have hd := Std.ExtTreeMap.distinct_keys_toList (t := m')
    rw [hsplit] at hd ⊢
    obtain ⟨-, hafter, hbefore⟩ := List.pairwise_append.mp hd
    rw [List.foldl_append, List.foldl_cons, habsent after, hown, habsent before]
    · rfl
    · intro w hw
      exact hbefore _ hw _ List.mem_cons_self (Std.LawfulEqOrd.compare_eq_iff_eq.mpr rfl)
    · intro w hw
      exact (List.pairwise_cons.mp hafter).1 _ hw (Std.LawfulEqOrd.compare_eq_iff_eq.mpr rfl)

/-- entries that are combined with those there are, or else with an identity -/
theorem getElem?_foldl_alter {f : β → β → β} {e : β} (h : ∀ v, f e v = v)
    (m m' : Std.ExtTreeMap κ β compare) (k : κ) :
    (m'.foldl (fun m k v => m.alter k fun old => some (f (old.getD e) v)) m)[k]? =
      Option.merge f m[k]? m'[k]? := by
  rw [getElem?_foldl_entries (f := fun v old => some (f (old.getD e) v))]
  · cases m'[k]? with
    | none => simp
    | some v => cases m[k]? <;> simp [h]
  · intro m k v
    rw [Std.ExtTreeMap.getElem?_alter, if_pos (Std.LawfulEqOrd.compare_eq_iff_eq.mpr rfl)]
  · intro m k v j hne
    rw [Std.ExtTreeMap.getElem?_alter, if_neg (mt Std.LawfulEqOrd.compare_eq_iff_eq.mp hne)]

theorem Option.filter_const {α : Type} (b : Bool) (o : Option α) :
    (o.filter fun _ => b) = if b then o else none := by
  cases o with
  | none => simp
  | some a => rfl

theorem getElem?_filter_keys (m : Std.ExtTreeMap κ β compare) (keeps : κ → Bool) (k : κ) :
    (m.filter fun k _ => keeps k)[k]? = if keeps k then m[k]? else none :=
  Std.ExtTreeMap.getElem?_filter'.trans (Option.filter_const _ _)

/-- all values of a map have a property -/
def EachValue (P : β → Prop) (m : Std.ExtTreeMap κ β compare) : Prop :=
  ∀ (k : κ) (v : β), m[k]? = some v → P v

variable {P : β → Prop} {m : Std.ExtTreeMap κ β compare}

theorem eachValue_empty : EachValue P (∅ : Std.ExtTreeMap κ β compare) := by
  intro k v hv
  rw [Std.ExtTreeMap.getElem?_empty] at hv
  cases hv

theorem EachValue.filter (h : EachValue P m) (keeps : κ → Bool) :
    EachValue P (m.filter fun k _ => keeps k) := by
  intro k v hv
  rw [getElem?_filter_keys] at hv
  split at hv
  · exact h k v hv
  · cases hv

/-- values that are combined have a property that the operation keeps -/
theorem EachValue.merge {f : β → β → β} (hf : ∀ {v w}, P v → P w → P (f v w))
    {a b m : Std.ExtTreeMap κ β compare} (ha : EachValue P a) (hb : EachValue P b)
    (hget : ∀ k : κ, m[k]? = Option.merge f a[k]? b[k]?) : EachValue P m := by
  intro k v hv
  rw [hget, Option.merge_eq_some_iff] at hv
  obtain ⟨hv, -⟩ | ⟨-, hv⟩ | ⟨x, y, hx, hy, rfl⟩ := hv
  · exact ha k v hv
  · exact hb k v hv
  · exact hf (ha k x hx) (hb k y hy)

end

end EventBuckets
