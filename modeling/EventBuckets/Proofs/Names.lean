import Mathlib
import EventBuckets.Registry

/-!
# What becomes of the name of an id

A name keeps its id until it is recycled or the id space is cut below the id, whatever other names
come and go.  Only an id without a name is given to a new one.

* `NameTable.Sound`      the slots of free ids are empty, and the index points to slots;
* `slots_add`, `index_add`, `mem_free_add`
                         what a name that gets an id changes, and so on for the other operations;
* `name?_add`            a new name takes no id from another one;
* `name?_recycle`, `name?_removeFrom`
                         which ids lose their names;
* `recycle_ascending`    recycled ids come in ascending order.
-/

namespace EventBuckets.NameTable
variable {s : NameTable} {name other : String} {id lowest : Nat}

/-- free ids have empty slots, and each name is in the slot of its id -/
structure Sound (s : NameTable) : Prop where
  free : ∀ id ∈ s.free, s.slots[id]? = some none
  index : ∀ (name : String) (id : Nat), s.index[name]? = some id → s.slots[id]? = some (some name)

theorem sound_empty : empty.Sound := by
  refine ⟨fun id hid => ?_, fun name id hid => ?_⟩
  · exact absurd hid Std.ExtTreeSet.not_mem_empty
  · simp [empty] at hid

theorem status_eq_active_iff : s.status id = .active ↔ (s.name? id).isSome = true := by
  unfold status name?
  cases s.slots[id]? with
  | none => simp
  | some slot => cases slot <;> simp

/-- no two names have the same id -/
theorem Sound.unique (h : s.Sound) (hname : s.index[name]? = some id)
    (hother : s.index[other]? = some id) : name = other :=
  Option.some.inj (Option.some.inj ((h.index name id hname).symm.trans (h.index other id hother)))

/-! ## new names -/

/-- the id that a name gets has a slot that is new, empty or its own -/
theorem Sound.slot_add (h : s.Sound) (hslot : s.slots[(s.add name).1]? = some (some other)) :
    name = other := by
  unfold NameTable.add at hslot
  split at hslot
  next id hid => exact Option.some.inj (Option.some.inj ((h.index name id hid).symm.trans hslot))
  · split at hslot
    next id hfree =>
      rw [h.free id (Std.ExtTreeSet.min?_mem hfree)] at hslot
      cases hslot
    next =>
      rw [Array.getElem?_size] at hslot
      cases hslot

theorem slots_add (h : s.Sound) (name : String) (id : Nat) :
    (s.add name).2.slots[id]? =
      if id = (s.add name).1 then some (some name) else s.slots[id]? := by
  unfold add
  split
  next known hknown =>
    by_cases heq : id = known
    · rw [if_pos heq, heq, h.index name known hknown]
    · rw [if_neg heq]
  · split
    next free hfree =>
      have hempty := h.free free (Std.ExtTreeSet.min?_mem hfree)
      rw [Array.getElem?_setIfInBounds, if_pos (Array.getElem?_eq_some_iff.mp hempty).1]
      exact if_congr eq_comm rfl rfl
    next => exact Array.getElem?_push

theorem index_add (s : NameTable) (name other : String) :
    (s.add name).2.index[other]? =
      if other = name then some (s.add name).1 else s.index[other]? := by
  have hinsert (id : Nat) :
      (s.index.insert name id)[other]? = if other = name then some id else s.index[other]? := by
    rw [Std.ExtTreeMap.getElem?_insert]
    exact if_congr (Std.LawfulEqOrd.compare_eq_iff_eq.trans eq_comm) rfl rfl
  unfold add
  split
  next id hid =>
    by_cases heq : other = name
    · rw [if_pos heq, heq, hid]
    · rw [if_neg heq]
  · split
    · exact hinsert _
    · exact hinsert _

theorem mem_free_add (h : s.Sound) (name : String) (id : Nat) :
    id ∈ (s.add name).2.free ↔ id ≠ (s.add name).1 ∧ id ∈ s.free := by
  -- an id with a name, or without a slot, was not free before
  have hne (own : Nat) (hown : s.slots[own]? ≠ some none) :
      id ∈ s.free ↔ id ≠ own ∧ id ∈ s.free := by
    refine ⟨fun hid => ⟨?_, hid⟩, And.right⟩
    rintro rfl
    exact hown (h.free id hid)
  unfold add
  split
  next known hknown => exact hne known (by rw [h.index name known hknown]; nofun)
  · split
    next free hfree =>
      refine Std.ExtTreeSet.mem_erase.trans (and_congr_left' ?_)
      exact not_congr (Std.LawfulEqOrd.compare_eq_iff_eq.trans eq_comm)
    next => exact hne s.slots.size (by rw [Array.getElem?_size]; nofun)

/-- a new name takes no id from another one -/
theorem name?_add (h : s.Sound) (name : String) (hid : s.name? id = some other) :
    (s.add name).2.name? id = some other := by
  have hslot : s.slots[id]? = some (some other) := Option.join_eq_some_iff.mp hid
  unfold name?
  rw [slots_add h]
  split
  next heq =>
    obtain rfl : name = other := h.slot_add (heq ▸ hslot)
    rfl
  next => exact hid

/-- a name that gets an id is active -/
theorem status_add (h : s.Sound) (name : String) :
    (s.add name).2.status (s.add name).1 = .active := by
  unfold status
  rw [slots_add h, if_pos rfl]

theorem Sound.add (h : s.Sound) (name : String) : (s.add name).2.Sound := by
  refine ⟨fun id hid => ?_, fun other id hid => ?_⟩
  · obtain ⟨hne, hid⟩ := (mem_free_add h name id).mp hid
    rw [slots_add h, if_neg hne]
    exact h.free id hid
  · rw [index_add] at hid
    rw [slots_add h]
    split at hid
    next heq => rw [if_pos (Option.some.inj hid).symm, heq]
    next hne =>
      have hslot := h.index other id hid
      rw [if_neg, hslot]
      exact fun heq => hne (h.slot_add (heq ▸ hslot)).symm

/-! ## recycled names -/

theorem release_eq (s : NameTable) (name : String) : (s.release name).1 = s.index[name]? := by
  unfold release
  split <;> simp only [*]

/-- recycling a name empties the slot of its id -/
theorem slots_release (h : s.Sound) (name : String) (id : Nat) :
    (s.release name).2.slots[id]? =
      if s.index[name]? = some id then some none else s.slots[id]? := by
  unfold release
  split
  next freed hfreed =>
    have hbound := (Array.getElem?_eq_some_iff.mp (h.index name freed hfreed)).1
    rw [Array.getElem?_setIfInBounds, if_pos hbound, hfreed]
    exact if_congr Option.some_inj.symm rfl rfl
  next hnone => rw [hnone, if_neg nofun]

theorem index_release (s : NameTable) (name other : String) :
    (s.release name).2.index[other]? = if other = name then none else s.index[other]? := by
  unfold release
  split
  next =>
    rw [Std.ExtTreeMap.getElem?_erase]
    exact if_congr (Std.LawfulEqOrd.compare_eq_iff_eq.trans eq_comm) rfl rfl
  next hnone =>
    by_cases heq : other = name
    · rw [if_pos heq, heq, hnone]
    · rw [if_neg heq]

theorem mem_free_release (s : NameTable) (name : String) (id : Nat) :
    id ∈ (s.release name).2.free ↔ s.index[name]? = some id ∨ id ∈ s.free := by
  unfold release
  split
  next freed hfreed =>
    rw [hfreed, Option.some_inj]
    exact Std.ExtTreeSet.mem_insert.trans (or_congr_left Std.LawfulEqOrd.compare_eq_iff_eq)
  next hnone =>
    rw [hnone]
    exact (or_iff_right nofun).symm

theorem Sound.release (h : s.Sound) (name : String) : (s.release name).2.Sound := by
  refine ⟨fun id hid => ?_, fun other id hid => ?_⟩
  · rw [slots_release h]
    split
    next => rfl
    next hne => exact h.free id (((mem_free_release s name id).mp hid).resolve_left hne)
  · rw [index_release] at hid
    split at hid
    next => cases hid
    next hne =>
      rw [slots_release h, if_neg (fun heq => hne (h.unique hid heq)), h.index other id hid]

theorem Sound.releaseAll (h : s.Sound) (names : List String) : (s.releaseAll names).2.Sound := by
  induction names generalizing s with
  | nil => exact h
  | cons name names ih => exact ih (h.release name)

theorem Sound.recycle (h : s.Sound) (names : List String) : (s.recycle names).2.Sound :=
  h.releaseAll names

theorem releaseAll_cons (s : NameTable) (name : String) (names : List String) :
    (s.releaseAll (name :: names)).1 =
      s.index[name]?.toList ++ ((s.release name).2.releaseAll names).1 := by
  rw [← release_eq]
  rfl

theorem mem_releaseAll (s : NameTable) (names : List String) (id : Nat) :
    id ∈ (s.releaseAll names).1 ↔ ∃ name ∈ names, s.index[name]? = some id := by
  induction names generalizing s with
  | nil => simp [releaseAll]
  | cons name names ih =>
    have hrest : id ∈ ((s.release name).2.releaseAll names).1 ↔
        ∃ other ∈ names, other ≠ name ∧ s.index[other]? = some id := by
      rw [ih]
      refine exists_congr fun other => and_congr_right fun _ => ?_
      rw [index_release]
      split <;> simp [*]
    rw [releaseAll_cons, List.mem_append, Option.mem_toList, hrest]
    refine ⟨fun hid => ?_, fun ⟨other, hmem, hid⟩ => ?_⟩
    · rcases hid with hid | ⟨other, hmem, -, hid⟩
      · exact ⟨name, List.mem_cons_self, hid⟩
      · exact ⟨other, List.mem_cons_of_mem _ hmem, hid⟩
    · by_cases heq : other = name
      · exact .inl (heq ▸ hid)
      · exact .inr ⟨other, (List.mem_cons.mp hmem).resolve_left heq, heq, hid⟩

theorem mem_recycle (s : NameTable) (names : List String) (id : Nat) :
    id ∈ (s.recycle names).1 ↔ ∃ name ∈ names, s.index[name]? = some id :=
  List.mem_mergeSort.trans (mem_releaseAll s names id)

/-- the slots of the ids that are recycled are emptied, and no other slot changes -/
theorem slots_recycle (h : s.Sound) (names : List String) (id : Nat) :
    (s.recycle names).2.slots[id]? =
      if id ∈ (s.recycle names).1 then some none else s.slots[id]? := by
  unfold recycle
  simp only [List.mem_mergeSort]
  induction names generalizing s with
  | nil => exact (if_neg List.not_mem_nil).symm
  | cons name names ih =>
    show ((s.release name).2.releaseAll names).2.slots[id]? = _
    rw [ih (h.release name), slots_release h]
    simp only [releaseAll_cons, List.mem_append, Option.mem_toList]
    split <;> simp [*]

/-- the ids that are recycled lose their names, and no other id does -/
theorem name?_recycle (h : s.Sound) (names : List String) (id : Nat) :
    (s.recycle names).2.name? id = if id ∈ (s.recycle names).1 then none else s.name? id := by
  unfold name?
  rw [slots_recycle h]
  split <;> rfl

theorem nodup_releaseAll (h : s.Sound) (names : List String) : (s.releaseAll names).1.Nodup := by
  induction names generalizing s with
  | nil => exact List.nodup_nil
  | cons name names ih =>
    rw [releaseAll_cons]
    refine (Option.toList_nodup _).append (ih (h.release name)) fun id hfirst hlater => ?_
    have hown : s.index[name]? = some id := Option.mem_toList.mp hfirst
    obtain ⟨other, -, hother⟩ := (mem_releaseAll _ names id).mp hlater
    rw [index_release] at hother
    split at hother
    next => cases hother
    next hne => exact hne (h.unique hother hown)

/-- no id is recycled twice, and the lowest one comes first -/
theorem recycle_ascending (h : s.Sound) (names : List String) :
    (s.recycle names).1.Pairwise (· < ·) := by
  have htrans (a b c : Nat) (hab : decide (a ≤ b) = true) (hbc : decide (b ≤ c) = true) :
      decide (a ≤ c) = true :=
    decide_eq_true (le_trans (of_decide_eq_true hab) (of_decide_eq_true hbc))
  have htotal (a b : Nat) : (decide (a ≤ b) || decide (b ≤ a)) = true := by
    simpa using Nat.le_total a b
  have hsorted := List.pairwise_mergeSort htrans htotal (s.releaseAll names).1
  have hnodup : (s.recycle names).1.Nodup :=
    (List.mergeSort_perm _ _).nodup_iff.mpr (nodup_releaseAll h names)
  exact (hsorted.and hnodup).imp fun hab => Nat.lt_of_le_of_ne (of_decide_eq_true hab.1) hab.2

/-! ## a smaller id space -/

theorem getElem?_take {α : Type} (xs : Array α) (n i : Nat) :
    (xs.take n)[i]? = if i < n then xs[i]? else none := by
  rw [Array.take_eq_extract, Array.getElem?_extract]
  by_cases hi : i < n
  · by_cases hb : i < xs.size
    · simp [hi, hb]
    · simp [hb]
  · simp [hi]

theorem slots_removeFrom (s : NameTable) (lowest id : Nat) :
    (s.removeFrom lowest).slots[id]? = if id < lowest then s.slots[id]? else none :=
  getElem?_take s.slots lowest id

theorem getElem?_foldl_erase {α : Type} (m : Std.ExtTreeMap String α compare) (names : List String)
    (name : String) : (names.foldl (fun m name => m.erase name) m)[name]? =
      if name ∈ names then none else m[name]? := by
  induction names generalizing m with
  | nil => exact (if_neg List.not_mem_nil).symm
  | cons first names ih =>
    rw [List.foldl_cons, ih, Std.ExtTreeMap.getElem?_erase]
    by_cases heq : first = name
    · simp [heq]
    · have hne : ¬compare first name = .eq := fun h => heq (Std.LawfulEqOrd.compare_eq_iff_eq.mp h)
      simp [hne, Ne.symm heq]

theorem mem_namesFrom :
    name ∈ s.namesFrom lowest ↔ ∃ id, lowest ≤ id ∧ s.slots[id]? = some (some name) := by
  unfold namesFrom
  rw [List.mem_filterMap]
  constructor
  · rintro ⟨_, hslot, rfl⟩
    obtain ⟨k, hk⟩ := List.mem_iff_getElem?.mp hslot
    rw [List.getElem?_drop, Array.getElem?_toList] at hk
    exact ⟨lowest + k, Nat.le_add_right _ _, hk⟩
  · rintro ⟨id, hle, hslot⟩
    refine ⟨_, List.mem_iff_getElem?.mpr ⟨id - lowest, ?_⟩, rfl⟩
    rw [List.getElem?_drop, Array.getElem?_toList, Nat.add_sub_cancel' hle, hslot]

theorem index_removeFrom (s : NameTable) (lowest : Nat) (name : String) :
    (s.removeFrom lowest).index[name]? =
      if name ∈ s.namesFrom lowest then none else s.index[name]? :=
  getElem?_foldl_erase s.index _ name

/-- a name that keeps its id has one below `lowest` -/
theorem Sound.lt_of_index_removeFrom (h : s.Sound)
    (hid : (s.removeFrom lowest).index[name]? = some id) :
    s.index[name]? = some id ∧ id < lowest := by
  rw [index_removeFrom] at hid
  split at hid
  · cases hid
  next hkept =>
    exact ⟨hid, Nat.lt_of_not_le fun hle => hkept (mem_namesFrom.mpr ⟨id, hle, h.index name id hid⟩)⟩

theorem mem_free_removeFrom : id ∈ (s.removeFrom lowest).free ↔ id ∈ s.free ∧ id < lowest := by
  refine Std.ExtTreeSet.mem_filter.trans ?_
  simp only [Std.ExtTreeSet.get_eq, decide_eq_true_eq, exists_prop]

theorem name?_removeFrom (s : NameTable) (lowest id : Nat) :
    (s.removeFrom lowest).name? id = if id < lowest then s.name? id else none := by
  unfold name?
  rw [slots_removeFrom]
  split <;> rfl

theorem Sound.removeFrom (h : s.Sound) (lowest : Nat) : (s.removeFrom lowest).Sound := by
  refine ⟨fun id hid => ?_, fun name id hid => ?_⟩
  · obtain ⟨hfree, hlow⟩ := mem_free_removeFrom.mp hid
    rw [slots_removeFrom, if_pos hlow]
    exact h.free id hfree
  · obtain ⟨hindex, hlow⟩ := h.lt_of_index_removeFrom hid
    rw [slots_removeFrom, if_pos hlow]
    exact h.index name id hindex

end EventBuckets.NameTable
