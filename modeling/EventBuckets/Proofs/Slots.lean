import EventBuckets.Proofs.KnownTags
import EventBuckets.Proofs.RoundTrip

/-!
# Levels kept for later

The levels of a gatherer and of a series are not looked into when they are met.  Each is kept in the
slot of its tag, and looked into at the end, so of levels with the same tag only the last one is.

* `Node.keepLast`      levels emptied where a later one has the same tag;
* `Slots`              a reader that keeps levels for later;
* `get_eq_last`        a slot holds the last level with its tag;
* `foldlM_keepLast`    what is in a level that a later one replaces does not matter;
* `of_mem_keepLast`    what is in the others is kept;
* `foldlM_mapLevel`    changing the contents of levels changes the contents of their slot.
-/

set_option linter.unusedSectionVars false

namespace EventBuckets
open Node Restore

/-! ## nodes -/

namespace Node

theorem allKnown_level {t : Tag} {inner : List Node} (h : AllKnown inner) :
    AllKnown [t.level inner] :=
  allKnown_of_children (tag?_level t inner) (children_level t t inner) h

def emptied : Node → Node
  | leaf tag text => leaf tag text
  | level tag _ => level tag []

/-- nodes with the levels of some tags emptied where a later node has the same tag -/
def keepLast (tags : List Tag) : List Node → List Node
  | [] => []
  | n :: rest =>
    (if (∃ t ∈ tags, t.name = n.name) ∧ ∃ m ∈ rest, m.name = n.name then n.emptied else n)
      :: keepLast tags rest

/-- a node with its contents changed if it is a level with the tag `t` -/
def mapLevel (t : Tag) (f : List Node → List Node) : Node → Node
  | leaf tag text => leaf tag text
  | level tag inner => level tag (if tag = t.name then f inner else inner)

theorem name_keepLast (tags : List Tag) (nodes : List Node) :
    (keepLast tags nodes).map name = nodes.map name := by
  induction nodes with
  | nil => rfl
  | cons n rest ih =>
    unfold keepLast
    rw [List.map_cons, List.map_cons, ih]
    congr 1
    split
    · cases n <;> rfl
    · rfl

theorem mapLevel_of_ne {t : Tag} {n : Node} (h : n.name ≠ t.name) (f : List Node → List Node) :
    mapLevel t f n = n := by
  cases n with
  | leaf tag text => rfl
  | level tag inner => exact congrArg (Node.level tag) (if_neg h)

end Node

/-! ## readers -/

/-- a reader that keeps the contents of levels with some tags for later, each in its slot; other
nodes it reads at once, whatever is in the slots -/
structure Slots {σ : Type} (read : σ → Node → Except RestoreError σ) (tags : List Tag) where
  get : Tag → σ → Option (List Node)
  set : Tag → List Node → σ → σ
  readOther : Tag → Node → σ → Except RestoreError σ
  read_eq : ∀ s n, read s n = n.tag? >>= fun t =>
    if t ∈ tags then (n.children t).map fun inner => set t inner s else readOther t n s
  get_set : ∀ t ∈ tags, ∀ inner s u, get u (set t inner s) = if u = t then some inner else get u s
  set_set : ∀ t inner inner' s, set t inner (set t inner' s) = set t inner s
  set_comm : ∀ t ∈ tags, ∀ u ∈ tags, t ≠ u → ∀ inner inner' s,
    set t inner (set u inner' s) = set u inner' (set t inner s)
  readOther_set : ∀ t ∈ tags, ∀ u n inner s,
    readOther u n (set t inner s) = (readOther u n s).map (set t inner)
  get_readOther : ∀ t ∈ tags, ∀ u n s s', readOther u n s = .ok s' → get t s' = get t s
  allKnown_of_readOther : ∀ u n s s', n.tag? = .ok u → readOther u n s = .ok s' → AllKnown [n]

namespace Slots
variable {σ : Type} {read : σ → Node → Except RestoreError σ} {tags : List Tag}
  (slots : Slots read tags) {t : Tag} {n : Node} {nodes : List Node} {s s' : σ}
include slots

theorem read_level (ht : t ∈ tags) (inner : List Node) (s : σ) :
    read s (.level t.name inner) = .ok (slots.set t inner s) := by
  have htag : (Node.level t.name inner).tag? = .ok t := tag?_level t inner
  rw [slots.read_eq, htag, except_ok_bind, if_pos ht]
  rfl

theorem read_leaf (ht : t ∈ tags) (text : String) (s : σ) :
    read s (.leaf t.name text) = .error (.expectedLevel t) := by
  have htag : (Node.leaf t.name text).tag? = .ok t := tag?_leaf t text
  rw [slots.read_eq, htag, except_ok_bind, if_pos ht]
  rfl

/-- a node with another tag does not look into a slot -/
theorem read_set (ht : t ∈ tags) (hn : n.name ≠ t.name) (inner : List Node) (s : σ) :
    read (slots.set t inner s) n = (read s n).map (slots.set t inner) := by
  rw [slots.read_eq, slots.read_eq]
  cases hu : n.tag? with
  | error e => rfl
  | ok u =>
    have hne : u ≠ t := fun e => hn (e ▸ name_of_tag? hu)
    rw [except_ok_bind, except_ok_bind]
    split
    next hmem =>
      cases n.children u with
      | error e => rfl
      | ok inner' => exact congrArg Except.ok (slots.set_comm u hmem t ht hne inner' inner s)
    next => exact slots.readOther_set t ht u n inner s

/-- nor does it change the slot -/
theorem get_read (ht : t ∈ tags) (hn : n.name ≠ t.name) (h : read s n = .ok s') :
    slots.get t s' = slots.get t s := by
  rw [slots.read_eq] at h
  obtain ⟨u, hu, h⟩ := Except.exists_of_bind h
  have hne : t ≠ u := fun e => hn (e ▸ name_of_tag? hu)
  split at h
  next hmem =>
    cases hinner : n.children u with
    | error e =>
      rw [hinner] at h
      cases h
    | ok inner =>
      rw [hinner] at h
      obtain rfl := Except.ok.inj h
      rw [slots.get_set u hmem, if_neg hne]
  next => exact slots.get_readOther t ht u n s s' h

/-- in the end a slot that was free holds the last level with its tag -/
theorem get_eq_last (ht : t ∈ tags) (hs : slots.get t s = none)
    (h : nodes.foldlM read s = .ok s') : slots.get t s' = lastLevel? t nodes := by
  refine (reads_of_ok h).eq_last hs (fun s n s' hstep hn => ?_) fun s n s' hstep hn =>
    slots.get_read ht hn hstep
  cases n with
  | leaf tag text =>
    obtain rfl : tag = t.name := hn
    rw [slots.read_leaf ht] at hstep
    cases hstep
  | level tag inner =>
    obtain rfl : tag = t.name := hn
    rw [slots.read_level ht] at hstep
    obtain rfl := Except.ok.inj hstep
    rw [slots.get_set t ht, if_pos rfl]
    rfl

/-- a node that has been read is kept for later, or read at once -/
theorem read_cases (h : read s n = .ok s') :
    (∃ t ∈ tags, ∃ inner, n = t.level inner ∧ s' = slots.set t inner s) ∨
      ∃ u, n.tag? = .ok u ∧ u ∉ tags ∧ slots.readOther u n s = .ok s' := by
  rw [slots.read_eq] at h
  obtain ⟨u, hu, h⟩ := Except.exists_of_bind h
  split at h
  next hmem =>
    cases n with
    | leaf tag text => cases h
    | level tag inner =>
      obtain rfl : tag = u.name := name_of_tag? hu
      exact .inl ⟨u, hmem, inner, rfl, (Except.ok.inj h).symm⟩
  next hother => exact .inr ⟨u, hu, hother, h⟩

/-- a node that has been read is known, or it is a level that is kept for later -/
theorem allKnown_or_level (h : read s n = .ok s') :
    (AllKnown [n] ∧ ∀ t ∈ tags, n.name ≠ t.name) ∨ ∃ t ∈ tags, ∃ inner, n = t.level inner := by
  rcases slots.read_cases h with ⟨t, ht, inner, hn, -⟩ | ⟨u, hu, hother, h⟩
  · exact .inr ⟨t, ht, inner, hn⟩
  · refine .inl ⟨slots.allKnown_of_readOther u n s s' hu h, fun t ht hn => hother ?_⟩
    rwa [Tag.name_injective ((name_of_tag? hu).symm.trans hn)]

/-- what is in a slot does not matter before a node with its tag -/
theorem foldlM_set (ht : t ∈ tags) (hlater : ∃ m ∈ nodes, m.name = t.name) (inner : List Node)
    (s : σ) : nodes.foldlM read (slots.set t inner s) = nodes.foldlM read s := by
  -- the slot is carried along unread up to the node with its tag, which overwrites it
  induction nodes generalizing s with
  | nil =>
    obtain ⟨m, hm, -⟩ := hlater
    exact (List.not_mem_nil hm).elim
  | cons n rest ih =>
    rw [List.foldlM_cons, List.foldlM_cons]
    by_cases hn : n.name = t.name
    · cases n with
      | leaf tag text =>
        obtain rfl : tag = t.name := hn
        rw [slots.read_leaf ht, slots.read_leaf ht]
      | level tag inner' =>
        obtain rfl : tag = t.name := hn
        rw [slots.read_level ht, slots.read_level ht, slots.set_set]
    · have hrest : ∃ m ∈ rest, m.name = t.name := by
        obtain ⟨m, hm, hname⟩ := hlater
        rcases List.mem_cons.mp hm with rfl | hm
        · exact (hn hname).elim
        · exact ⟨m, hm, hname⟩
      rw [slots.read_set ht hn]
      cases hread : read s n with
      | error e => rfl
      | ok u => exact ih hrest u

/-- so the contents of a level that a later one replaces do not matter -/
theorem foldlM_keepLast (nodes : List Node) (s : σ) :
    (keepLast tags nodes).foldlM read s = nodes.foldlM read s := by
  induction nodes generalizing s with
  | nil => rfl
  | cons n rest ih =>
    unfold keepLast
    rw [List.foldlM_cons, List.foldlM_cons]
    split
    next h =>
      obtain ⟨⟨t, ht, htn⟩, m, hm, hmn⟩ := h
      cases n with
      | leaf tag text => exact bind_congr fun u => ih u
      | level tag inner =>
        obtain rfl : t.name = tag := htn
        show read s (.level t.name []) >>= _ = _
        rw [slots.read_level ht, slots.read_level ht, except_ok_bind, except_ok_bind, ih,
          slots.foldlM_set ht ⟨m, hm, hmn⟩, slots.foldlM_set ht ⟨m, hm, hmn⟩]
    next => exact bind_congr fun u => ih u

theorem get_of_not_mem (ht : t ∈ tags) (hnodes : ∀ n ∈ nodes, n.name ≠ t.name)
    (h : nodes.foldlM read s = .ok s') : slots.get t s' = slots.get t s :=
  (reads_of_ok h).invariant (P := fun u => slots.get t u = slots.get t s) rfl
    fun _ n hn _ hu hstep => (slots.get_read ht (hnodes n hn) hstep).trans hu

/-- a node that has been read is known, or it is a level that is kept for later or empty -/
theorem of_mem_keepLast (h : (keepLast tags nodes).foldlM read s = .ok s') :
    ∀ n ∈ keepLast tags nodes, (AllKnown [n] ∧ ∀ t ∈ tags, n.name ≠ t.name) ∨
      ∃ t ∈ tags, ∃ inner, n = t.level inner ∧ (inner = [] ∨ slots.get t s' = some inner) := by
  induction nodes generalizing s with
  | nil => exact fun n hn => (List.not_mem_nil hn).elim
  | cons n rest ih =>
    unfold keepLast at h ⊢
    rw [List.foldlM_cons] at h
    obtain ⟨u, hu, htail⟩ := Except.exists_of_bind h
    intro m hm
    rcases List.mem_cons.mp hm with rfl | hm
    · rcases slots.allKnown_or_level hu with hknown | ⟨t, ht, inner, hinner⟩
      · exact .inl hknown
      · refine .inr ⟨t, ht, inner, hinner, ?_⟩
        rw [hinner, Tag.level, slots.read_level ht] at hu
        obtain rfl := Except.ok.inj hu
        split at hinner
        next =>
          cases n with
          | leaf tag text => cases hinner
          | level tag inner' =>
            cases hinner
            exact .inl rfl
        next hlast =>
          subst hinner
          have hrest : ∀ m ∈ keepLast tags rest, m.name ≠ t.name := by
            intro m hm hname
            have hmem := List.mem_map_of_mem (f := name) hm
            rw [name_keepLast] at hmem
            obtain ⟨m', hm', hname'⟩ := List.mem_map.mp hmem
            exact hlast ⟨⟨t, ht, rfl⟩, m', hm', hname'.trans hname⟩
          have hset := slots.get_set t ht inner s t
          rw [if_pos rfl] at hset
          exact .inr ((slots.get_of_not_mem ht hrest htail).trans hset)
    · exact ih htail m hm

/-- so all is known if all that is kept is known in the end -/
theorem allKnown_keepLast (h : nodes.foldlM read s = .ok s')
    (hkept : ∀ t ∈ tags, ∀ inner, slots.get t s' = some inner → AllKnown inner) :
    AllKnown (keepLast tags nodes) := by
  rw [← slots.foldlM_keepLast] at h
  refine allKnown_of_forall fun n hn => ?_
  rcases slots.of_mem_keepLast h n hn with hknown | ⟨t, ht, inner, rfl, hempty | hget⟩
  · exact hknown.1
  · rw [hempty]
    exact allKnown_level allKnown_nil
  · exact allKnown_level (hkept t ht inner hget)

/-- the state with the contents of a slot changed -/
def modify (t : Tag) (f : List Node → List Node) (s : σ) : σ :=
  (slots.get t s).elim s fun inner => slots.set t (f inner) s

theorem modify_set (ht : t ∈ tags) (f : List Node → List Node) (inner : List Node) (s : σ) :
    slots.modify t f (slots.set t inner s) = slots.set t (f inner) s := by
  unfold modify
  rw [slots.get_set t ht, if_pos rfl, Option.elim_some, slots.set_set]

theorem set_modify (f : List Node → List Node) (inner : List Node) (s : σ) :
    slots.set t inner (slots.modify t f s) = slots.set t inner s := by
  unfold modify
  cases slots.get t s with
  | none => rfl
  | some old => rw [Option.elim_some, slots.set_set]

theorem read_mapLevel_of_eq (ht : t ∈ tags) (hn : n.name = t.name) (f : List Node → List Node)
    (s : σ) : read (slots.modify t f s) (mapLevel t f n) = (read s n).map (slots.modify t f) := by
  cases n with
  | leaf tag text =>
    obtain rfl : tag = t.name := hn
    show read _ (.leaf t.name text) = _
    rw [slots.read_leaf ht, slots.read_leaf ht]
    rfl
  | level tag inner =>
    obtain rfl : tag = t.name := hn
    show read _ (.level t.name (if t.name = t.name then f inner else inner)) = _
    rw [if_pos rfl, slots.read_level ht, slots.read_level ht, slots.set_modify]
    exact congrArg Except.ok (slots.modify_set ht f inner s).symm

theorem read_modify_of_ne (ht : t ∈ tags) (hn : n.name ≠ t.name) (f : List Node → List Node)
    (s : σ) : read (slots.modify t f s) n = (read s n).map (slots.modify t f) := by
  have hread : read (slots.modify t f s) n = (slots.get t s).elim (read s n)
      fun inner => (read s n).map (slots.set t (f inner)) := by
    unfold modify
    cases slots.get t s with
    | none => rfl
    | some inner => exact slots.read_set ht hn (f inner) s
  rw [hread]
  cases h : read s n with
  | error e => cases slots.get t s <;> rfl
  | ok u =>
    show _ = Except.ok (slots.modify t f u)
    unfold modify
    rw [slots.get_read ht hn h]
    cases slots.get t s <;> rfl

/-- changing the contents of the levels with a tag changes the contents of its slot -/
theorem foldlM_mapLevel (ht : t ∈ tags) (f : List Node → List Node) (nodes : List Node) (s : σ) :
    (nodes.map (mapLevel t f)).foldlM read (slots.modify t f s) =
      (nodes.foldlM read s).map (slots.modify t f) := by
  induction nodes generalizing s with
  | nil => rfl
  | cons n rest ih =>
    have hfirst : read (slots.modify t f s) (mapLevel t f n) =
        (read s n).map (slots.modify t f) := by
      by_cases hn : n.name = t.name
      · exact slots.read_mapLevel_of_eq ht hn f s
      · rw [mapLevel_of_ne hn f]
        exact slots.read_modify_of_ne ht hn f s
    rw [List.map_cons, List.foldlM_cons, List.foldlM_cons, hfirst]
    cases hread : read s n with
    | error e => rfl
    | ok u => exact ih u

end Slots

/-! ## series and gatherers -/

/-- the tags of the levels that a series keeps for later -/
def Series.kept : List Tag := [.bucketQueue, .multiBucket]

/-- the tags of the levels that a gatherer keeps for later -/
def Snapshot.kept : List Tag := [.bucketQueue, .multiBucket, .series]

/-- the levels of a series of occurrences -/
def Occurrences.slots : Slots Occurrences.readLevel [.bucketQueue, .multiBucket] where
  get
    | .bucketQueue, l => l.ring
    | .multiBucket, l => l.spans
    | _, _ => none
  set
    | .bucketQueue, inner, l => { l with ring := some inner }
    | .multiBucket, inner, l => { l with spans := some inner }
    | _, _, l => l
  readOther t _ _ := .error (.unexpectedTag t)
  read_eq l n := by
    unfold Occurrences.readLevel
    congr 1
    funext t
    cases t <;> rfl
  get_set := by
    intro t ht inner l u
    fin_cases ht <;> cases u <;> rfl
  set_set t inner inner' l := by cases t <;> rfl
  set_comm := by
    intro t ht u hu h inner inner' l
    fin_cases ht <;> fin_cases hu <;> first | rfl | exact (h rfl).elim
  readOther_set _ _ _ _ _ _ := rfl
  get_readOther _ _ _ _ _ _ h := by cases h
  allKnown_of_readOther _ _ _ _ _ h := by cases h

/-- the levels of a series of measurements; the sample counts are read at once -/
def Measured.slots : Slots Measured.readPart [.bucketQueue, .multiBucket] where
  get
    | .bucketQueue, s => s.levels.ring
    | .multiBucket, s => s.levels.spans
    | _, _ => none
  set
    | .bucketQueue, inner, s => { s with levels := { s.levels with ring := some inner } }
    | .multiBucket, inner, s => { s with levels := { s.levels with spans := some inner } }
    | _, _, s => s
  readOther t n s :=
    match t with
    | .sampleCounts => do
      return { s with samples := ← s.samples.readNodes (← n.children .sampleCounts) }
    | t => .error (.unexpectedTag t)
  read_eq s n := by
    unfold Measured.readPart
    congr 1
    funext t
    cases t <;> rfl
  get_set := by
    intro t ht inner s u
    fin_cases ht <;> cases u <;> rfl
  set_set t inner inner' s := by cases t <;> rfl
  set_comm := by
    intro t ht u hu h inner inner' s
    fin_cases ht <;> fin_cases hu <;> first | rfl | exact (h rfl).elim
  readOther_set := by
    intro t ht u n inner s
    split
    · cases n.children .sampleCounts with
      | error e => rfl
      | ok inner' =>
        fin_cases ht
        · cases h : s.samples.readNodes inner' <;> simp only [except_ok_bind, h] <;> rfl
        · cases h : s.samples.readNodes inner' <;> simp only [except_ok_bind, h] <;> rfl
    · rfl
  get_readOther := by
    intro t ht u n s s' h
    split at h
    · obtain ⟨inner, -, h⟩ := Except.exists_of_bind h
      obtain ⟨samples, -, h⟩ := Except.exists_of_bind h
      obtain rfl := Except.ok.inj h
      fin_cases ht <;> rfl
    · cases h
  allKnown_of_readOther := by
    intro u n s s' hu h
    split at h
    · obtain ⟨inner, hinner, h⟩ := Except.exists_of_bind h
      obtain ⟨samples, hsamples, -⟩ := Except.exists_of_bind h
      exact allKnown_of_children hu hinner (SampleCounts.allKnown_of_readNodes hsamples)
    · cases h

/-- the levels of a gatherer; the numbers are read at once -/
def Snapshot.slots (length : Int) :
    Slots (Snapshot.readPart length) [.bucketQueue, .multiBucket, .series] where
  get
    | .bucketQueue, s => s.levels.ring
    | .multiBucket, s => s.levels.spans
    | .series, s => s.series
    | _, _ => none
  set
    | .bucketQueue, inner, s => { s with levels := { s.levels with ring := some inner } }
    | .multiBucket, inner, s => { s with levels := { s.levels with spans := some inner } }
    | .series, inner, s => { s with series := some inner }
    | _, _, s => s
  readOther t n s :=
    match t with
    | .bucketLength => do
      let found ← n.time .bucketLength
      if found = length then return s else throw (.invalidValue .bucketLength (toString found))
    | .bucketStart => do return { s with start := some (← n.time .bucketStart) }
    | .earliestTime => do return { s with earliest := some (← n.time .earliestTime) }
    | t => .error (.unexpectedTag t)
  read_eq s n := by
    unfold Snapshot.readPart
    congr 1
    funext t
    cases t <;> rfl
  get_set := by
    intro t ht inner s u
    fin_cases ht <;> cases u <;> rfl
  set_set t inner inner' s := by cases t <;> rfl
  set_comm := by
    intro t ht u hu h inner inner' s
    fin_cases ht <;> fin_cases hu <;> first | rfl | exact (h rfl).elim
  readOther_set := by
    intro t ht u n inner s
    split
    · cases n.time .bucketLength with
      | error e => rfl
      | ok found =>
        simp only [except_ok_bind]
        split <;> rfl
    · fin_cases ht <;> cases n.time .bucketStart <;> rfl
    · fin_cases ht <;> cases n.time .earliestTime <;> rfl
    · rfl
  get_readOther := by
    intro t ht u n s s' h
    split at h
    · obtain ⟨found, -, h⟩ := Except.exists_of_bind h
      split at h
      · obtain rfl := Except.ok.inj h
        rfl
      · cases h
    · obtain ⟨start, -, h⟩ := Except.exists_of_bind h
      obtain rfl := Except.ok.inj h
      fin_cases ht <;> rfl
    · obtain ⟨earliest, -, h⟩ := Except.exists_of_bind h
      obtain rfl := Except.ok.inj h
      fin_cases ht <;> rfl
    · cases h
  allKnown_of_readOther := by
    intro u n s s' hu h
    split at h
    · exact allKnown_of_parse_bind hu h
    · exact allKnown_of_parse_bind hu h
    · exact allKnown_of_parse_bind hu h
    · cases h

end EventBuckets
