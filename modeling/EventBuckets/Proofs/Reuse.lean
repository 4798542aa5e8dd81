import EventBuckets.Proofs.Names
import EventBuckets.Proofs.Provenance

/-!
# Ids that are used again

A registry gives out the ids that a gatherer gathers under, and an id that has been recycled goes to
the next new name.  What is recycled in the registry is dropped from the gatherer, so that no single
bucket says anything of a former owner of an id.

* `Joint`, `JointOp`      a registry and a gatherer that work together, and what they do;
* `Joint.survives`        whether a record outlives an operation: its ids keep their names;
* `Joint.current`         the records of a run whose ids have kept their names ever since;
* `Series.Sampled`        the people with a sample count;
* `Joint.Linked`          the invariant: buckets stem from records of pairs with names;
* `Joint.Confined`        only ids in use occur in single buckets and sample counts;
* `no_data_of_former_owners`
                          whatever ids were used again, buckets stem from the current records.
-/

set_option linter.unusedSectionVars false

namespace EventBuckets

/-- a registry, and a gatherer that gathers under its ids -/
structure Joint where
  registry : Registry
  gatherer : Gatherer

/-- an operation of a registry and a gatherer; ids are taken from both at once -/
inductive JointOp where
  | enrolPerson (name : String)
  | enrolAttribute (name : String)
  | add (e : Event)
  | tick (time : Int)
  | sample (time : Int)
  | skip (time : Int)
  | restart (time : Int)
  | recyclePeople (names : List String)
  | recycleAttributes (names : List String)
  | removePeople (lowest : Nat)
  | removeAttributes (lowest : Nat)

namespace Joint

def perform (j : Joint) : JointOp → Joint
  | .enrolPerson name =>
    { j with registry := { j.registry with people := (j.registry.people.add name).2 } }
  | .enrolAttribute name =>
    { j with registry := { j.registry with attributes := (j.registry.attributes.add name).2 } }
  | .add e => { j with gatherer := (j.gatherer.add j.registry.directory e).2 }
  | .tick t => { j with gatherer := (j.gatherer.tick t).2 }
  | .sample t => { j with gatherer := j.gatherer.sample t }
  | .skip t => { j with gatherer := j.gatherer.skip t }
  | .restart t => { j with gatherer := j.gatherer.restart t }
  | .recyclePeople names =>
    let (ids, people) := j.registry.people.recycle names
    ⟨{ j.registry with people }, j.gatherer.recyclePeople ids⟩
  | .recycleAttributes names =>
    let (ids, attributes) := j.registry.attributes.recycle names
    ⟨{ j.registry with attributes }, j.gatherer.recycleAttributes ids⟩
  | .removePeople lowest =>
    ⟨{ j.registry with people := j.registry.people.removeFrom lowest },
      j.gatherer.removePeople lowest⟩
  | .removeAttributes lowest =>
    ⟨{ j.registry with attributes := j.registry.attributes.removeFrom lowest },
      j.gatherer.removeAttributes lowest⟩

def run (j : Joint) (ops : List JointOp) : Joint := ops.foldl perform j

/-- the record that an operation leaves behind, if there is one -/
def recorded? (j : Joint) : JointOp → Option Recorded
  | .add e => j.gatherer.recorded? j.registry.directory e
  | _ => none

end Joint

/-! ## names of pairs -/

namespace Registry
variable {r r' : Registry} {p : Pair}

/-- both ids of a pair have names -/
def Names (r : Registry) (p : Pair) : Prop :=
  (r.people.name? p.person).isSome = true ∧ (r.attributes.name? p.attr).isSome = true

/-- whether both ids of a pair have the same names in two registries -/
def sameNames (r r' : Registry) (p : Pair) : Bool :=
  r'.people.name? p.person = r.people.name? p.person
    && r'.attributes.name? p.attr = r.attributes.name? p.attr

structure Sound (r : Registry) : Prop where
  people : r.people.Sound
  attributes : r.attributes.Sound

theorem sound_empty : empty.Sound := ⟨NameTable.sound_empty, NameTable.sound_empty⟩

theorem sameNames_self (r : Registry) (p : Pair) : r.sameNames r p = true := by simp [sameNames]

theorem sameNames_trans {r'' : Registry} (h : r.sameNames r' p = true)
    (h' : r'.sameNames r'' p = true) : r.sameNames r'' p = true := by
  unfold sameNames at *
  simp only [Bool.and_eq_true, decide_eq_true_eq] at *
  exact ⟨h'.1.trans h.1, h'.2.trans h.2⟩

theorem names_iff_isActive : r.Names p ↔ r.directory.isActive p = true := by
  unfold Names Directory.isActive
  rw [Bool.and_eq_true, decide_eq_true_eq, decide_eq_true_eq]
  exact and_congr NameTable.status_eq_active_iff.symm NameTable.status_eq_active_iff.symm

end Registry

/-! ## sample counts -/

/-- sums are listed under the keys of what was summed up -/
theorem exists_of_mem_sumBy {α κ : Type} [Ord κ] [Std.TransOrd κ] [Std.LawfulEqOrd κ]
    [DecidableEq κ] {key : α → κ} {number : α → Nat} {as : List α} {k : κ}
    (h : k ∈ sumBy key number as) : ∃ a ∈ as, key a = k := by
  have hall (m : Std.ExtTreeMap κ Nat compare)
      (h : k ∈ as.foldl (fun m a => addTo m (key a) (number a)) m) :
      k ∈ m ∨ ∃ a ∈ as, key a = k := by
    clear * - h
    induction as generalizing m with
    | nil => exact .inl h
    | cons a as ih =>
      rcases ih _ h with hm | ⟨x, hx, heq⟩
      · rw [Std.ExtTreeMap.mem_iff_isSome_getElem?, getElem?_addTo] at hm
        split at hm
        next heq => exact .inr ⟨a, List.mem_cons_self, heq⟩
        next => exact .inl (Std.ExtTreeMap.mem_iff_isSome_getElem?.mpr hm)
      · exact .inr ⟨x, List.mem_cons_of_mem _ hx, heq⟩
  rcases hall ∅ h with h | h
  · exact absurd h Std.ExtTreeMap.not_mem_empty
  · exact h

namespace SampleCounts
variable {s : SampleCounts} {person : Nat}

theorem mem_set {other : Nat} {x : Binary64} (h : person ∈ (s.set other x).byPerson) :
    person = other ∨ person ∈ s.byPerson := by
  unfold set at h
  split at h
  · exact .inr (Std.ExtTreeMap.mem_of_mem_erase h)
  · rcases Std.ExtTreeMap.mem_insert.mp h with heq | h
    · exact .inl (Std.LawfulEqOrd.compare_eq_iff_eq.mp heq).symm
    · exact .inr h

/-- who has a sample count had one before, or has been counted in the bucket -/
theorem mem_update {weight : Binary64} {counts : List (Nat × Nat)}
    (h : person ∈ (s.update weight counts).byPerson) :
    person ∈ s.byPerson ∨ ∃ e ∈ counts, e.1 = person := by
  induction counts generalizing s with
  | nil => exact .inl h
  | cons e counts ih =>
    rcases ih h with h | ⟨x, hx, heq⟩
    · have h : person ∈ (s.updatePerson weight e.1 e.2).byPerson := h
      unfold updatePerson at h
      split at h
      · exact .inl h
      · rcases mem_set h with rfl | h
        · exact .inr ⟨e, List.mem_cons_self, rfl⟩
        · exact .inl h
    · exact .inr ⟨x, List.mem_cons_of_mem _ hx, heq⟩

end SampleCounts

/-- only who has a measurement is counted among the people -/
theorem Metrics.Summarises.exists_of_mem_personCounts {m : Metrics} {rs : List Recorded}
    (h : m.Summarises rs) {e : Nat × Nat} (he : e ∈ m.personCounts) :
    ∃ x ∈ rs, x.pair.person = e.1 := by
  have hmem : e.1 ∈ sumBy (fun e => e.1.person) (fun e => e.2.count) m.byPair.toList := by
    rw [Std.ExtTreeMap.mem_iff_isSome_getElem?,
      Std.ExtTreeMap.mem_toList_iff_getElem?_eq_some.mp he]
    rfl
  obtain ⟨⟨p, s⟩, hp, heq⟩ := exists_of_mem_sumBy hmem
  have hget : m.get? p = some s := Std.ExtTreeMap.mem_toList_iff_getElem?_eq_some.mp hp
  rw [h p] at hget
  cases hrs : rs.filter (Recorded.isOf p) with
  | nil =>
    rw [hrs] at hget
    cases hget
  | cons x xs =>
    obtain ⟨hx, hof⟩ := List.mem_filter.mp (hrs ▸ List.mem_cons_self : x ∈ rs.filter _)
    refine ⟨x, hx, ?_⟩
    rw [Recorded.pair_eq_of_isOf hof]
    exact heq

namespace Series
variable {s : Series} {records : List Recorded} {allowed : Nat → Prop}

/-- whether a series has a sample count of a person -/
def Sampled (s : Series) (person : Nat) : Prop :=
  match s with
  | occurrences _ => False
  | measured m => person ∈ m.samples.byPerson

/-- a series whose buckets stem from records, with sample counts of some people at most -/
structure Limited (s : Series) (records : List Recorded) (allowed : Nat → Prop) : Prop where
  stems : s.StemsFrom .contents records
  sampled : ∀ person, s.Sampled person → allowed person

/-- a bucket that leaves is of people that have records -/
theorem Limited.startBucket (h : s.Limited records allowed)
    (hall : ∀ x ∈ records, allowed x.pair.person) (t : Int) (counting : Bool) :
    (s.startBucket t counting).Limited records allowed := by
  refine ⟨h.stems.startBucket Account.lawful_contents t counting, fun person hp => ?_⟩
  cases s with
  | occurrences s => exact hp.elim
  | measured m =>
    cases counting with
    | false => exact h.sampled person hp
    | true =>
      rcases SampleCounts.mem_update hp with hp | ⟨e, he, rfl⟩
      · exact h.sampled person hp
      unfold Measured.leaving at he
      split at he
      next bucket hb =>
        obtain ⟨rs, hrs, htold⟩ := Ring.StemsFrom.of_get? h.stems hb
        obtain ⟨x, hx, hperson⟩ := Metrics.Summarises.exists_of_mem_personCounts htold he
        rw [← hperson]
        exact hall x (hrs.subset hx)
      next => cases he

theorem sampled_add (s : Series) (t : Int) (p : Pair) (e : Event) (person : Nat) :
    (s.add t p e).Sampled person ↔ s.Sampled person := by
  cases s with
  | occurrences s => exact Iff.rfl
  | measured m => exact Iff.rfl

theorem sampled_sample (s : Series) (t : Int) (person : Nat) :
    (s.sample t).Sampled person ↔ s.Sampled person := by
  cases s with
  | occurrences s => exact Iff.rfl
  | measured m => exact Iff.rfl

theorem sampled_reset (s : Series) (t : Int) (person : Nat) :
    (s.reset t).Sampled person ↔ s.Sampled person := by
  cases s with
  | occurrences s => exact Iff.rfl
  | measured m => exact Iff.rfl

theorem sampled_retainAttributes (s : Series) (keeps : Nat → Bool) (person : Nat) :
    (s.retainAttributes keeps).Sampled person ↔ s.Sampled person := by
  cases s with
  | occurrences s => exact Iff.rfl
  | measured m => exact Iff.rfl

theorem sampled_retainPeople {keeps : Nat → Bool} {person : Nat}
    (h : (s.retainPeople keeps).Sampled person) : keeps person = true ∧ s.Sampled person := by
  cases s with
  | occurrences s => exact h.elim
  | measured m =>
    obtain ⟨hmem, hk⟩ := Std.ExtTreeMap.mem_filter.mp h
    exact ⟨by simpa using hk, hmem⟩

theorem sampled_of_sampleCount? {person : Nat} {x : Binary64} (h : s.sampleCount? person = some x)
    (hx : x ≠ 0) : s.Sampled person := by
  cases s with
  | occurrences s => cases h
  | measured m =>
    obtain rfl := Option.some.inj h
    by_contra hnone
    exact hx (Std.ExtTreeMap.getD_eq_fallback hnone)

end Series

namespace Gatherer
variable {g : Gatherer} {records : List Recorded} {allowed : Nat → Prop}

theorem limited_advance (h : g.series.Limited records allowed)
    (hall : ∀ x ∈ records, allowed x.pair.person) (t : Int) (counting : Bool) :
    (g.advance t counting).series.Limited records allowed :=
  advance_of_openBucket (P := fun g => g.series.Limited records allowed)
    (fun _ start h => h.startBucket hall start counting) (fun _ _ h => h) h t

theorem sampled_record (g : Gatherer) (e : Event) (t : Int) (p : Pair) (person : Nat) :
    (g.record e t p).series.Sampled person ↔ g.series.Sampled person := by
  unfold Gatherer.record
  simp only
  split
  · exact Iff.rfl
  · split
    · exact Iff.rfl
    · exact g.series.sampled_add t p e person

/-- an event has people sampled only by moving the clock -/
theorem sampled_add (h : g.series.Limited records allowed)
    (hall : ∀ x ∈ records, allowed x.pair.person) (d : Directory) (e : Event) {person : Nat}
    (hp : (g.add d e).2.series.Sampled person) : allowed person := by
  have hobserved (g' : Gatherer) (h' : g'.series = g.series) (t : Int) :
      (g'.observe t).series.Limited records allowed := by
    rw [← h'] at h
    let noted := { g' with earliest := some (g'.earliest.elim t fun e => min e t) }
    exact limited_advance (g := noted) h hall t true
  have hadds := adds g d e
  generalize g.add d e = r at hadds hp
  cases hadds with
  | untimed => exact h.sampled person hp
  | refused => exact h.sampled person hp
  | late => exact h.sampled person hp
  | ignored => exact h.sampled person hp
  | @noted t => exact (hobserved g rfl t).sampled person hp
  | @taken t p => exact (hobserved (g.widen p) rfl t).sampled person ((sampled_record ..).mp hp)

end Gatherer

/-! ## what becomes of records -/

namespace Joint
variable {j : Joint} {kind : SeriesKind} {c : Config} {records : List Recorded}

/-- whether a record outlives an operation: both of its ids keep their names, and the buckets are
not emptied -/
def survives (j : Joint) (op : JointOp) (x : Recorded) : Bool :=
  match op with
  | .restart _ => false
  | op => j.registry.sameNames (j.perform op).registry x.pair

/-- whether a record outlives operations, one after the other -/
def outlives (j : Joint) : List JointOp → Recorded → Bool
  | [], _ => true
  | op :: ops, x => j.survives op x && (j.perform op).outlives ops x

/-- the records of operations whose ids have kept their names ever since -/
def current (j : Joint) : List JointOp → List Recorded
  | [] => []
  | op :: ops =>
    (j.recorded? op).toList.filter ((j.perform op).outlives ops) ++ (j.perform op).current ops

/-- names are in order, the buckets tell records of pairs with names, and who has a sample count has
a name -/
structure Linked (j : Joint) (kind : SeriesKind) (c : Config) (records : List Recorded) :
    Prop where
  registry : j.registry.Sound
  gatherer : j.gatherer.Recounts kind c records
  names : ∀ x ∈ records, j.registry.Names x.pair
  sampled : ∀ person, j.gatherer.series.Sampled person →
    (j.registry.people.name? person).isSome = true

theorem Linked.limited (h : j.Linked kind c records) : j.gatherer.series.Limited records
    fun person => (j.registry.people.name? person).isSome = true :=
  ⟨h.gatherer.stems.series, h.sampled⟩

/-- the clock moves beside the names -/
theorem Linked.advance (h : j.Linked kind c records) (t : Int) (counting : Bool) :
    Linked ⟨j.registry, j.gatherer.advance t counting⟩ kind c records where
  registry := h.registry
  gatherer := h.gatherer.advance t counting
  names := h.names
  sampled :=
    (Gatherer.limited_advance h.limited (fun x hx => (h.names x hx).1) t counting).sampled

theorem Linked.tick (h : j.Linked kind c records) (t : Int) :
    Linked ⟨j.registry, (j.gatherer.tick t).2⟩ kind c records := by
  unfold Gatherer.tick
  split
  · exact h
  · exact h.advance t true

theorem Linked.sample (h : j.Linked kind c records) (t : Int) :
    Linked ⟨j.registry, j.gatherer.sample t⟩ kind c records := by
  have h' := h.advance (j.gatherer.lastCall t) true
  refine ⟨h.registry, h.gatherer.sample t, h.names, fun person hp => ?_⟩
  exact h'.sampled person ((Series.sampled_sample ..).mp hp)

theorem Linked.restart (h : j.Linked kind c records) (t : Int) :
    Linked ⟨j.registry, j.gatherer.restart t⟩ kind c [] := by
  refine ⟨h.registry, h.gatherer.restart t, ?_, fun person hp => ?_⟩
  · exact fun x hx => (List.not_mem_nil hx).elim
  · exact h.sampled person ((Series.sampled_reset ..).mp hp)

/-- a record is of a pair whose ids are in use -/
theorem names_of_recorded? {e : Event} {x : Recorded}
    (h : j.gatherer.recorded? j.registry.directory e = some x) : j.registry.Names x.pair := by
  unfold Gatherer.recorded? at h
  split at h
  · split at h
    next hu =>
      obtain ⟨-, hp, -⟩ := Event.of_record? h
      rw [hp, Registry.names_iff_isActive]
      unfold Event.isUsable at hu
      exact (Bool.and_eq_true_iff.mp hu).1
    next => cases h
  · cases h

theorem Linked.add (h : j.Linked kind c records) (e : Event) :
    Linked ⟨j.registry, (j.gatherer.add j.registry.directory e).2⟩ kind c
      (records ++ (j.gatherer.recorded? j.registry.directory e).toList) := by
  refine ⟨h.registry, h.gatherer.add _ e, fun x hx => ?_, fun person hp => ?_⟩
  · rcases List.mem_append.mp hx with hx | hx
    · exact h.names x hx
    · have hnames : j.registry.Names x.pair := names_of_recorded? (Option.mem_toList.mp hx)
      exact hnames
  · exact Gatherer.sampled_add h.limited (fun x hx => (h.names x hx).1) _ e hp

/-- new names leave the old ones as they are -/
theorem Linked.enrol (h : j.Linked kind c records) {r : Registry} (hr : r.Sound)
    (hp : ∀ id name, j.registry.people.name? id = some name → r.people.name? id = some name)
    (ha : ∀ id name, j.registry.attributes.name? id = some name →
      r.attributes.name? id = some name) :
    Linked ⟨r, j.gatherer⟩ kind c (records.filter fun x => j.registry.sameNames r x.pair) := by
  have hkept {s s' : NameTable} (hs : ∀ id name, s.name? id = some name → s'.name? id = some name)
      (id : Nat) (hid : (s.name? id).isSome = true) : s'.name? id = s.name? id := by
    obtain ⟨name, hname⟩ := Option.isSome_iff_exists.mp hid
    rw [hname]
    exact hs id name hname
  have hall : records.filter (fun x => j.registry.sameNames r x.pair) = records := by
    apply List.filter_eq_self.mpr
    intro x hx
    obtain ⟨hperson, hattr⟩ := h.names x hx
    simp [Registry.sameNames, hkept hp _ hperson, hkept ha _ hattr]
  rw [hall]
  refine ⟨hr, h.gatherer, fun x hx => ?_, fun person hsampled => ?_⟩
  · obtain ⟨hperson, hattr⟩ := h.names x hx
    unfold Registry.Names
    rw [hkept hp _ hperson, hkept ha _ hattr]
    exact ⟨hperson, hattr⟩
  · have hperson := h.sampled person hsampled
    rwa [hkept hp _ hperson]

theorem name?_recycle_of_not_mem {s : NameTable} (hs : s.Sound) (names : List String) (id : Nat) :
    (s.recycle names).2.name? id =
      if decide (id ∉ (s.recycle names).1) then s.name? id else none := by
  rw [NameTable.name?_recycle hs]
  by_cases hid : id ∈ (s.recycle names).1
  · rw [if_pos hid, if_neg fun e => absurd hid (of_decide_eq_true e)]
  · rw [if_neg hid, if_pos (decide_eq_true hid)]

theorem name?_removeFrom_of_lt {s : NameTable} (lowest id : Nat) :
    (s.removeFrom lowest).name? id = if decide (id < lowest) then s.name? id else none := by
  rw [NameTable.name?_removeFrom]
  by_cases hid : id < lowest
  · rw [if_pos hid, if_pos (decide_eq_true hid)]
  · rw [if_neg hid, if_neg fun e => hid (of_decide_eq_true e)]

/-- people that lose their ids are dropped with their data -/
theorem Linked.retainPeople (h : j.Linked kind c records) {people : NameTable}
    (hs : people.Sound) {keeps : Nat → Bool}
    (hn : ∀ id, people.name? id = if keeps id then j.registry.people.name? id else none) :
    Linked ⟨{ j.registry with people }, j.gatherer.retainPeople keeps⟩ kind c
      (records.filter fun x => j.registry.sameNames { j.registry with people } x.pair) := by
  have hsame (x : Recorded) (hx : x ∈ records) :
      j.registry.sameNames { j.registry with people } x.pair = keeps x.pair.person := by
    obtain ⟨name, hname⟩ := Option.isSome_iff_exists.mp (h.names x hx).1
    unfold Registry.sameNames
    simp only [hn, hname]
    cases keeps x.pair.person with
    | false => rfl
    | true => simp
  have hrecords : records.filter _ = Recorded.among (fun p => keeps p.person) records :=
    List.filter_congr hsame
  have hkept {id : Nat} (hk : keeps id = true)
      (hid : (j.registry.people.name? id).isSome = true) : (people.name? id).isSome = true := by
    rw [hn, if_pos hk]
    exact hid
  rw [hrecords]
  refine ⟨⟨hs, h.registry.attributes⟩, h.gatherer.retainPeople keeps, fun x hx => ?_,
    fun person hp => ?_⟩
  · obtain ⟨hx, hk⟩ := List.mem_filter.mp hx
    exact ⟨hkept hk (h.names x hx).1, (h.names x hx).2⟩
  · obtain ⟨hk, hp⟩ := Series.sampled_retainPeople hp
    exact hkept hk (h.sampled person hp)

/-- attributes that lose their ids are dropped with their data -/
theorem Linked.retainAttributes (h : j.Linked kind c records) {attributes : NameTable}
    (hs : attributes.Sound) {keeps : Nat → Bool}
    (hn : ∀ id, attributes.name? id = if keeps id then j.registry.attributes.name? id else none) :
    Linked ⟨{ j.registry with attributes }, j.gatherer.retainAttributes keeps⟩ kind c
      (records.filter fun x => j.registry.sameNames { j.registry with attributes } x.pair) := by
  have hsame (x : Recorded) (hx : x ∈ records) :
      j.registry.sameNames { j.registry with attributes } x.pair = keeps x.pair.attr := by
    obtain ⟨name, hname⟩ := Option.isSome_iff_exists.mp (h.names x hx).2
    unfold Registry.sameNames
    simp only [hn, hname]
    cases keeps x.pair.attr with
    | false => simp
    | true => simp
  have hrecords : records.filter _ = Recorded.among (fun p => keeps p.attr) records :=
    List.filter_congr hsame
  rw [hrecords]
  refine ⟨⟨h.registry.people, hs⟩, h.gatherer.retainAttributes keeps, fun x hx => ?_,
    fun person hp => ?_⟩
  · obtain ⟨hx, hk⟩ := List.mem_filter.mp hx
    refine ⟨(h.names x hx).1, ?_⟩
    show (attributes.name? x.pair.attr).isSome = true
    rw [hn, if_pos hk]
    exact (h.names x hx).2
  · exact h.sampled person ((Series.sampled_retainAttributes ..).mp hp)

/-- an operation keeps the link, with the records that survive it and its own -/
theorem Linked.perform (h : j.Linked kind c records) (op : JointOp) :
    (j.perform op).Linked kind c
      (records.filter (j.survives op) ++ (j.recorded? op).toList) := by
  have hall : records.filter (fun x => j.registry.sameNames j.registry x.pair) = records := by
    apply List.filter_eq_self.mpr
    intro x _
    exact j.registry.sameNames_self x.pair
  have hpeople := h.registry.people
  have hattributes := h.registry.attributes
  cases op with
  | add e =>
    show Linked _ _ _ (records.filter (fun x => j.registry.sameNames j.registry x.pair) ++ _)
    rw [hall]
    exact h.add e
  | tick t =>
    show Linked _ _ _ (records.filter (fun x => j.registry.sameNames j.registry x.pair) ++ [])
    rw [hall, List.append_nil]
    exact h.tick t
  | sample t =>
    show Linked _ _ _ (records.filter (fun x => j.registry.sameNames j.registry x.pair) ++ [])
    rw [hall, List.append_nil]
    exact h.sample t
  | skip t =>
    show Linked _ _ _ (records.filter (fun x => j.registry.sameNames j.registry x.pair) ++ [])
    rw [hall, List.append_nil]
    exact h.advance _ false
  | restart t =>
    show Linked _ _ _ (records.filter (fun _ => false) ++ [])
    rw [List.filter_false, List.append_nil]
    exact h.restart t
  | enrolPerson name =>
    show Linked _ _ _ (records.filter _ ++ [])
    rw [List.append_nil]
    refine h.enrol ⟨hpeople.add name, hattributes⟩ (fun id other hid => ?_) fun _ _ hid => hid
    exact NameTable.name?_add hpeople name hid
  | enrolAttribute name =>
    show Linked _ _ _ (records.filter _ ++ [])
    rw [List.append_nil]
    refine h.enrol ⟨hpeople, hattributes.add name⟩ (fun _ _ hid => hid) fun id other hid => ?_
    exact NameTable.name?_add hattributes name hid
  | recyclePeople names =>
    show Linked _ _ _ (records.filter _ ++ [])
    rw [List.append_nil]
    exact h.retainPeople (hpeople.recycle names) (name?_recycle_of_not_mem hpeople names)
  | recycleAttributes names =>
    show Linked _ _ _ (records.filter _ ++ [])
    rw [List.append_nil]
    exact h.retainAttributes (hattributes.recycle names)
      (name?_recycle_of_not_mem hattributes names)
  | removePeople lowest =>
    show Linked _ _ _ (records.filter _ ++ [])
    rw [List.append_nil]
    have h' := h.retainPeople (hpeople.removeFrom lowest) (name?_removeFrom_of_lt lowest)
    exact ⟨h'.registry, h'.gatherer.with_bounds _, h'.names, h'.sampled⟩
  | removeAttributes lowest =>
    show Linked _ _ _ (records.filter _ ++ [])
    rw [List.append_nil]
    have h' := h.retainAttributes (hattributes.removeFrom lowest) (name?_removeFrom_of_lt lowest)
    exact ⟨h'.registry, h'.gatherer.with_bounds _, h'.names, h'.sampled⟩

/-! ## runs -/

@[simp] theorem run_cons (j : Joint) (op : JointOp) (ops : List JointOp) :
    j.run (op :: ops) = (j.perform op).run ops := rfl

/-- a run keeps the link, with the records that outlive it and its own current ones -/
theorem Linked.run (h : j.Linked kind c records) (ops : List JointOp) :
    (j.run ops).Linked kind c (records.filter (j.outlives ops) ++ j.current ops) := by
  induction ops generalizing j records with
  | nil =>
    have hall : records.filter (j.outlives []) = records := List.filter_eq_self.mpr fun _ _ => rfl
    rw [hall]
    show j.Linked kind c (records ++ [])
    rw [List.append_nil]
    exact h
  | cons op ops ih =>
    have hrest := ih (h.perform op)
    have hboth : (records.filter (j.survives op)).filter ((j.perform op).outlives ops) =
        records.filter (j.outlives (op :: ops)) := by
      rw [List.filter_filter]
      exact List.filter_congr fun x _ => Bool.and_comm _ _
    rw [List.filter_append, hboth, List.append_assoc] at hrest
    exact hrest

theorem linked_new {time : Int} {g : Gatherer} (hnew : Gatherer.new kind c time = .ok g) :
    Linked ⟨.empty, g⟩ kind c [] := by
  refine ⟨Registry.sound_empty, Gatherer.recounts_new hnew, ?_, fun person hp => ?_⟩
  · exact fun x hx => (List.not_mem_nil hx).elim
  · unfold Gatherer.new at hnew
    split at hnew
    · cases hnew
    · obtain rfl := Except.ok.inj hnew
      cases kind with
      | eventRate => exact hp.elim
      | metric => exact absurd hp Std.ExtTreeMap.not_mem_empty

/-- a record was added by an operation, and its ids have kept their names ever since -/
def Kept (j : Joint) (ops : List JointOp) (x : Recorded) : Prop :=
  ∃ before e after, ops = before ++ JointOp.add e :: after ∧
    (j.run before).recorded? (.add e) = some x ∧
    ∀ n, (j.run before).registry.sameNames
      (j.run (before ++ JointOp.add e :: after.take n)).registry x.pair = true

theorem sameNames_of_outlives {ops : List JointOp} {x : Recorded} (h : j.outlives ops x = true)
    (n : Nat) : j.registry.sameNames (j.run (ops.take n)).registry x.pair = true := by
  induction ops generalizing j n with
  | nil =>
    rw [List.take_nil]
    exact j.registry.sameNames_self x.pair
  | cons op ops ih =>
    cases n with
    | zero => exact j.registry.sameNames_self x.pair
    | succ n =>
      obtain ⟨hfirst, hrest⟩ := Bool.and_eq_true_iff.mp h
      refine Registry.sameNames_trans ?_ (ih hrest n)
      cases op with
      | restart t => cases hfirst
      | _ => exact hfirst

theorem kept_of_mem_current {ops : List JointOp} {x : Recorded} (h : x ∈ j.current ops) :
    j.Kept ops x := by
  induction ops generalizing j with
  | nil => exact (List.not_mem_nil h).elim
  | cons op ops ih =>
    rcases List.mem_append.mp h with h | h
    · obtain ⟨hx, hkept⟩ := List.mem_filter.mp h
      cases op with
      | add e =>
        exact ⟨[], e, ops, rfl, Option.mem_toList.mp hx, sameNames_of_outlives hkept⟩
      | _ => cases hx
    · obtain ⟨before, e, after, rfl, hx, hkept⟩ := ih h
      exact ⟨op :: before, e, after, rfl, hx, hkept⟩

/-! ## former owners -/

/-- only ids in use occur in single buckets and sample counts -/
structure Confined (j : Joint) : Prop where
  mentions : ∀ t p, j.gatherer.Mentions t p → j.registry.directory.isActive p = true
  sampled : ∀ person x, j.gatherer.series.sampleCount? person = some x → x ≠ 0 →
    j.registry.people.status person = .active

theorem Linked.confined (h : j.Linked kind c records) : j.Confined := by
  refine ⟨fun t p hp => ?_, fun person x hx hne => ?_⟩
  · obtain ⟨x, hx, rfl⟩ := h.gatherer.stems.exists_record hp
    exact Registry.names_iff_isActive.mp (h.names x hx)
  · rw [NameTable.status_eq_active_iff]
    exact h.sampled person (Series.sampled_of_sampleCount? hx hne)

/-- whatever names come, go and share ids over time, single buckets and sample counts are of ids in
use, and the buckets stem from the records whose ids have kept their names; with lengths that are
positive as signed numbers they say what those of their time come to -/
theorem no_data_of_former_owners {t : Int} {g : Gatherer}
    (hnew : Gatherer.new kind c t = .ok g) (ops : List JointOp) :
    (run ⟨.empty, g⟩ ops).Confined ∧
      (run ⟨.empty, g⟩ ops).gatherer.StemsFrom .contents (current ⟨.empty, g⟩ ops) ∧
      (c.bucketLength.secs.toNat < 2 ^ 63 → ∀ lo,
        (run ⟨.empty, g⟩ ops).gatherer.Tells .contents lo (current ⟨.empty, g⟩ ops)) ∧
      ∀ x ∈ current ⟨.empty, g⟩ ops, Kept ⟨.empty, g⟩ ops x := by
  have hlinked := (linked_new hnew).run ops
  rw [List.filter_nil, List.nil_append] at hlinked
  exact ⟨hlinked.confined, hlinked.gatherer.stems, fun hs => (hlinked.gatherer.exact hs).2,
    fun x hx => kept_of_mem_current hx⟩

/-- an id goes from one person to the next, and both have events -/
def handover : List JointOp :=
  [.enrolPerson "alice", .enrolAttribute "login",
    .add ⟨some 5, some 0, some 0, [], some 3, some "home", [some "host"], false⟩,
    .recyclePeople ["alice"], .enrolPerson "carol",
    .add ⟨some 7, some 0, some 0, [], some 2, none, [], false⟩]

theorem current_handover {g : Gatherer}
    (hnew : Gatherer.new .eventRate Config.default 0 = .ok g) :
    current ⟨.empty, g⟩ handover =
      [⟨7, ⟨0, 0⟩, 2, ⟨some 7, some 0, some 0, [], some 2, none, [], false⟩⟩] := by
  obtain rfl := Except.ok.inj hnew
  have hfirst (name : String) : (NameTable.empty.add name).2 =
      ⟨#[some name], (∅ : Std.ExtTreeMap String Nat compare).insert name 0, ∅⟩ := by
    unfold NameTable.add NameTable.empty
    rw [Std.ExtTreeMap.getElem?_empty, Std.ExtTreeSet.min?_empty]
    rfl
  -- the least free id does not compute by itself
  have hnext : (NameTable.add (NameTable.recycle ⟨#[some "alice"],
      (∅ : Std.ExtTreeMap String Nat compare).insert "alice" 0, ∅⟩ ["alice"]).2 "carol").2 =
      ⟨#[some "carol"], (((∅ : Std.ExtTreeMap String Nat compare).insert "alice" 0).erase
        "alice").insert "carol" 0, ((∅ : Std.ExtTreeSet Nat compare).insert 0).erase 0⟩ := by
    have hleast : (NameTable.recycle ⟨#[some "alice"],
        (∅ : Std.ExtTreeMap String Nat compare).insert "alice" 0, ∅⟩ ["alice"]).2.free.min? =
        some 0 := by
      show ((∅ : Std.ExtTreeSet Nat compare).insert 0).min? = some 0
      rw [Std.ExtTreeSet.min?_insert, Std.ExtTreeSet.min?_empty]
      rfl
    unfold NameTable.add
    rw [hleast]
    rfl
  simp only [handover, current, outlives, survives, perform, Registry.empty, hfirst, hnext]
  rfl

/-- the next owner of an id does not have the data of the former one -/
theorem no_data_of_recycled_person :
    ∃ g, Gatherer.new .eventRate Config.default 0 = .ok g ∧
      (run ⟨.empty, g⟩ handover).Confined ∧
      ∀ lo, (run ⟨.empty, g⟩ handover).gatherer.Tells .contents lo
        [⟨7, ⟨0, 0⟩, 2, ⟨some 7, some 0, some 0, [], some 2, none, [], false⟩⟩] := by
  refine ⟨_, rfl, ?_⟩
  obtain ⟨hconfined, -, htells, -⟩ :=
    no_data_of_former_owners (c := Config.default) (t := 0) rfl handover
  rw [current_handover rfl] at htells
  exact ⟨hconfined, htells (by decide)⟩

end Joint

end EventBuckets
