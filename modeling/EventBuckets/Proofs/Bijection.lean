import EventBuckets.Proofs.Names

/-!
# Names and ids go together one to one

The slots, the index and the free ids of a table say the same three times.  Every operation keeps it
so, also when names are recycled twice, and when ids are cut off below free ones and given out again.

* `NameTable.Consistent`    the index and the free ids say what the slots say;
* `NameTable.Op`            the operations on a table, and `run` for a list of them;
* `consistent_run`          a table that starts empty is consistent after every run;
* `Bijective`, `Adds`, `Recycles`, `Cuts`
                            what a table shows, and what each operation does to it;
* `run_bijective`           all of it holds after every run.
-/

namespace EventBuckets.NameTable
variable {s : NameTable} {name other : String} {id lowest : Nat}

/-- the index and the free ids say what the slots say -/
structure Consistent (s : NameTable) : Prop where
  index : ∀ (name : String) (id : Nat), s.index[name]? = some id ↔ s.slots[id]? = some (some name)
  free : ∀ id : Nat, id ∈ s.free ↔ s.slots[id]? = some none

theorem Consistent.sound (h : s.Consistent) : s.Sound :=
  ⟨fun id => (h.free id).mp, fun name id => (h.index name id).mp⟩

theorem consistent_empty : empty.Consistent := by
  refine ⟨fun name id => ?_, fun id => ?_⟩
  · simp [empty]
  · simp [empty, Std.ExtTreeSet.not_mem_empty]

/-! ## each operation keeps a table consistent -/

theorem Consistent.add (h : s.Consistent) (name : String) : (s.add name).2.Consistent := by
  refine ⟨fun other id => ?_, fun id => ?_⟩
  · rw [index_add, slots_add h.sound]
    by_cases hname : other = name <;> by_cases hid : id = (s.add name).1
    · rw [if_pos hname, if_pos hid, hname, hid]
      exact ⟨fun _ => rfl, fun _ => rfl⟩
    · -- a name that had an id gets the same one
      rw [if_pos hname, if_neg hid, ← h.index, hname]
      refine ⟨fun heq => absurd (Option.some.inj heq).symm hid, fun hold => ?_⟩
      unfold NameTable.add
      simp only [hold]
    · rw [if_neg hname, if_pos hid, h.index]
      refine ⟨fun hslot => absurd (h.sound.slot_add (hid ▸ hslot)).symm hname, fun heq => ?_⟩
      exact absurd (Option.some.inj (Option.some.inj heq)).symm hname
    · rw [if_neg hname, if_neg hid, h.index]
  · rw [mem_free_add h.sound, slots_add h.sound, h.free]
    by_cases hid : id = (s.add name).1
    · simp [hid]
    · simp [hid]

theorem Consistent.release (h : s.Consistent) (name : String) :
    (s.release name).2.Consistent := by
  refine ⟨fun other id => ?_, fun id => ?_⟩
  · rw [index_release, slots_release h.sound]
    by_cases hname : other = name <;> by_cases hid : s.index[name]? = some id
    · rw [if_pos hname, if_pos hid]
      exact ⟨nofun, nofun⟩
    · rw [if_pos hname, if_neg hid, ← h.index, hname]
      exact ⟨nofun, fun hold => absurd hold hid⟩
    · rw [if_neg hname, if_pos hid]
      exact ⟨fun hold => absurd (h.sound.unique hold hid) hname, nofun⟩
    · rw [if_neg hname, if_neg hid, h.index]
  · rw [mem_free_release, slots_release h.sound, h.free]
    split <;> simp [*]

theorem Consistent.recycle (h : s.Consistent) (names : List String) :
    (s.recycle names).2.Consistent := by
  unfold NameTable.recycle
  induction names generalizing s with
  | nil => exact h
  | cons name names ih => exact ih (h.release name)

/-- a name loses its id just if the id is given up -/
theorem Consistent.index_removeFrom_eq_some_iff (h : s.Consistent) :
    (s.removeFrom lowest).index[name]? = some id ↔ s.index[name]? = some id ∧ id < lowest := by
  refine ⟨h.sound.lt_of_index_removeFrom, ?_⟩
  rintro ⟨hid, hlow⟩
  rw [index_removeFrom, if_neg, hid]
  rw [mem_namesFrom]
  rintro ⟨other, hle, hslot⟩
  have hother := hid.symm.trans ((h.index name other).mpr hslot)
  exact absurd hle (Nat.not_le.mpr (Option.some.inj hother ▸ hlow))

theorem Consistent.removeFrom (h : s.Consistent) (lowest : Nat) :
    (s.removeFrom lowest).Consistent := by
  refine ⟨fun name id => ?_, fun id => ?_⟩
  · rw [h.index_removeFrom_eq_some_iff, slots_removeFrom, h.index]
    split <;> simp [*]
  · rw [mem_free_removeFrom, slots_removeFrom, h.free]
    split <;> simp [*]

/-! ## every run of them does -/

/-- an operation on a table -/
inductive Op where
  | add (name : String)
  | recycle (names : List String)
  | removeFrom (lowest : Nat)

def perform (s : NameTable) : Op → NameTable
  | .add name => (s.add name).2
  | .recycle names => (s.recycle names).2
  | .removeFrom lowest => s.removeFrom lowest

/-- performs the operations in turn on a table that starts empty -/
def run (ops : List Op) : NameTable := ops.foldl perform empty

theorem Consistent.perform (h : s.Consistent) (op : Op) : (s.perform op).Consistent := by
  cases op with
  | add name => exact h.add name
  | recycle names => exact h.recycle names
  | removeFrom lowest => exact h.removeFrom lowest

theorem consistent_run (ops : List Op) : (run ops).Consistent := by
  have go (s : NameTable) (h : s.Consistent) : (ops.foldl NameTable.perform s).Consistent := by
    induction ops generalizing s with
    | nil => exact h
    | cons op ops ih => exact ih _ (h.perform op)
  exact go empty consistent_empty

/-! ## what a consistent table shows -/

/-- names and ids pair off, and the ids in use so far are those with a name and the free ones -/
structure Bijective (s : NameTable) : Prop where
  resolves : ∀ (name : String) (id : Nat),
    s.id? name = some id ↔ s.slots[id]? = some (some name)
  distinct : ∀ (name other : String) (id : Nat),
    s.id? name = some id → s.id? other = some id → name = other
  free : ∀ id : Nat, id ∈ s.free ↔ id < s.slots.size ∧ s.name? id = none
  active : ∀ id : Nat, s.status id = .active ↔ ∃ name, s.name? id = some name
  recycled : ∀ id : Nat, s.status id = .recycled ↔ id ∈ s.free
  unknown : ∀ id : Nat, s.status id = .unknown ↔ s.slots.size ≤ id

theorem status_eq_recycled_iff : s.status id = .recycled ↔ s.slots[id]? = some none := by
  unfold status
  cases s.slots[id]? with
  | none => simp
  | some slot => cases slot <;> simp

theorem status_eq_unknown_iff : s.status id = .unknown ↔ s.slots[id]? = none := by
  unfold status
  cases s.slots[id]? with
  | none => simp
  | some slot => cases slot <;> simp

/-- a slot is empty if it is there and has no name -/
theorem slot_eq_some_none_iff :
    s.slots[id]? = some none ↔ id < s.slots.size ∧ s.name? id = none := by
  unfold name?
  rw [← not_le, ← Array.getElem?_eq_none_iff]
  cases s.slots[id]? with
  | none => simp
  | some slot => cases slot <;> simp

theorem Consistent.bijective (h : s.Consistent) : s.Bijective where
  resolves := h.index
  distinct _ _ _ hname hother := h.sound.unique hname hother
  free _ := (h.free _).trans slot_eq_some_none_iff
  active _ := status_eq_active_iff.trans Option.isSome_iff_exists
  recycled _ := status_eq_recycled_iff.trans (h.free _).symm
  unknown _ := status_eq_unknown_iff.trans Array.getElem?_eq_none_iff

/-- a known name keeps its id, and a new one gets the lowest free id, or else the next slot -/
structure Adds (s : NameTable) (name : String) : Prop where
  known : ∀ id, s.id? name = some id → s.add name = (id, s)
  lowest : s.id? name = none → ∀ id ∈ s.free, (s.add name).1 ∈ s.free ∧ (s.add name).1 ≤ id
  next : s.id? name = none → (∀ id, id ∉ s.free) → (s.add name).1 = s.slots.size
  resolves : ∀ other,
    (s.add name).2.id? other = if other = name then some (s.add name).1 else s.id? other

theorem add_of_known (h : s.id? name = some id) : s.add name = (id, s) := by
  unfold id? at h
  unfold add
  simp only [h]

/-- a new name takes the lowest free id -/
theorem add_of_free (hnew : s.id? name = none) (hid : id ∈ s.free) :
    (s.add name).1 ∈ s.free ∧ (s.add name).1 ≤ id := by
  unfold id? at hnew
  unfold add
  simp only [hnew]
  split
  next least hleast =>
    have hle : (compare least id).isLE = true := by
      simpa only [hleast, Option.get_some] using Std.ExtTreeSet.min?_le_of_mem hid rfl
    exact ⟨Std.ExtTreeSet.min?_mem hleast, Nat.isLE_compare.mp hle⟩
  next hnone =>
    rw [Std.ExtTreeSet.min?_eq_none_iff.mp hnone] at hid
    exact absurd hid Std.ExtTreeSet.not_mem_empty

theorem add_of_full (hnew : s.id? name = none) (hfull : ∀ id, id ∉ s.free) :
    (s.add name).1 = s.slots.size := by
  unfold id? at hnew
  unfold add
  simp only [hnew]
  split
  next least hleast => exact absurd (Std.ExtTreeSet.min?_mem hleast) (hfull least)
  next => rfl

theorem adds (s : NameTable) (name : String) : s.Adds name where
  known _ := add_of_known
  lowest hnew _ := add_of_free hnew
  next := add_of_full
  resolves := index_add s name

/-- the ids of the names are freed, each once and the lowest one first, and no other id changes -/
structure Recycles (s : NameTable) (names : List String) : Prop where
  ascending : (s.recycle names).1.Pairwise (· < ·)
  freed : ∀ id, id ∈ (s.recycle names).1 ↔ ∃ name ∈ names, s.id? name = some id
  status : ∀ id, (s.recycle names).2.status id =
    if id ∈ (s.recycle names).1 then .recycled else s.status id
  resolves : ∀ name, (s.recycle names).2.id? name = if name ∈ names then none else s.id? name

theorem index_recycle (s : NameTable) (names : List String) (name : String) :
    (s.recycle names).2.index[name]? = if name ∈ names then none else s.index[name]? := by
  unfold recycle
  induction names generalizing s with
  | nil => exact (if_neg List.not_mem_nil).symm
  | cons first names ih =>
    show ((s.release first).2.releaseAll names).2.index[name]? = _
    rw [ih, index_release]
    simp only [List.mem_cons]
    split <;> simp [*]

theorem Sound.recycles (h : s.Sound) (names : List String) : s.Recycles names where
  ascending := recycle_ascending h names
  freed := mem_recycle s names
  status id := by
    unfold NameTable.status
    rw [slots_recycle h]
    by_cases hid : id ∈ (s.recycle names).1
    · rw [if_pos hid, if_pos hid]
    · rw [if_neg hid, if_neg hid]
  resolves := index_recycle s names

/-- the ids from `lowest` on were never given out, and the others stay as they are -/
structure Cuts (s : NameTable) (lowest : Nat) : Prop where
  gone : ∀ id, lowest ≤ id → (s.removeFrom lowest).status id = .unknown
  status : ∀ id < lowest, (s.removeFrom lowest).status id = s.status id
  name : ∀ id < lowest, (s.removeFrom lowest).name? id = s.name? id
  resolves : ∀ name id,
    (s.removeFrom lowest).id? name = some id ↔ s.id? name = some id ∧ id < lowest

theorem Consistent.cuts (h : s.Consistent) (lowest : Nat) : s.Cuts lowest where
  gone id hid := by
    rw [status_eq_unknown_iff, slots_removeFrom, if_neg (Nat.not_lt.mpr hid)]
  status id hid := by
    unfold NameTable.status
    rw [slots_removeFrom, if_pos hid]
  name id hid := by rw [name?_removeFrom, if_pos hid]
  resolves _ _ := h.index_removeFrom_eq_some_iff

/-- after every run of operations names and ids pair off, and each operation does its work -/
theorem run_bijective (ops : List Op) :
    (run ops).Bijective ∧ (∀ name, (run ops).Adds name) ∧
      (∀ names, (run ops).Recycles names) ∧ ∀ lowest, (run ops).Cuts lowest :=
  ⟨(consistent_run ops).bijective, adds (run ops), (consistent_run ops).sound.recycles,
    (consistent_run ops).cuts⟩

/-- after a cut the free id below it is given out first, and then those that were cut off -/
example :
    let s := run [.add "a", .add "b", .add "c", .recycle ["b", "none", "b"], .removeFrom 2]
    (s.add "d").1 = 1 ∧ ((s.add "d").2.add "e").1 = 2 := by
  cbv

end EventBuckets.NameTable
