import EventBuckets.Gatherer.Snapshot

/-!
# What a reading has seen

A document that has been read without an error has been looked at node by node.

* `Restore.Yields`   reading succeeds with a value, from some pool of texts;
* `Reads`            nodes read one after another, by a relation between the states of a reader;
* `Reads.forall_mem`, `Reads.invariant`
                     what each step says of its node, and keeps of the state;
* `Reads.of_last`, `Reads.eq_last`
                     what the last node with a tag leaves behind;
* `Node.subnodesOf`  nodes and all nodes within them;
* `Node.AllKnown`    all tags, at any depth, are names in the table.
-/

set_option linter.unusedSectionVars false

namespace EventBuckets

/-! ## readings -/

theorem Except.exists_of_bind {ε α β : Type} {x : Except ε α} {f : α → Except ε β} {b : β}
    (h : x >>= f = .ok b) : ∃ a, x = .ok a ∧ f a = .ok b := by
  cases x with
  | error e => cases h
  | ok a => exact ⟨a, rfl, h⟩

namespace Restore
variable {α β : Type}

/-- reading succeeds with a value, from some pool of texts -/
def Yields (x : Restore α) (a : α) : Prop := ∃ s s', x.startingWith s = (.ok a, s')

theorem Yields.exists_of_bind {x : Restore α} {f : α → Restore β} {b : β}
    (h : Yields (x >>= f) b) : ∃ a, Yields x a ∧ Yields (f a) b := by
  obtain ⟨s, s', h⟩ := h
  unfold startingWith at h
  rw [ExceptT.run_bind, StateT.run_bind] at h
  cases hx : x.run.run s with
  | mk result s₁ =>
    rw [hx] at h
    cases result with
    | error e => cases h
    | ok a => exact ⟨a, ⟨s, s₁, hx⟩, ⟨s₁, s', h⟩⟩

theorem Yields.eq_of_pure {a b : α} (h : Yields (pure a) b) : a = b := by
  obtain ⟨s, s', h⟩ := h
  cases h
  rfl

theorem not_yields_throw (e : RestoreError) (a : α) : ¬Yields (throw e) a := by
  rintro ⟨s, s', h⟩
  cases h

theorem not_yields_throw_bind (e : RestoreError) (f : α → Restore β) (b : β) :
    ¬Yields (throw e >>= f) b := fun h =>
  have ⟨a, ha, _⟩ := h.exists_of_bind
  not_yields_throw e a ha

theorem Yields.eq_ok {x : Except RestoreError α} {a : α} (h : Yields (liftM x : Restore α) a) :
    x = .ok a := by
  obtain ⟨s, s', h⟩ := h
  cases x with
  | error e => cases h
  | ok b =>
    cases h
    rfl

theorem Yields.ofExcept {x : Except RestoreError α} {a : α} (h : Yields (ofExcept x) a) :
    x = .ok a := Yields.eq_ok h

end Restore

/-! ## nodes one after another -/

/-- nodes read one after another; `step` says what a node may make of a state -/
inductive Reads {σ : Type} (step : σ → Node → σ → Prop) : σ → List Node → σ → Prop
  | nil (s : σ) : Reads step s [] s
  | cons {s t u : σ} {n : Node} {nodes : List Node} (first : step s n t)
    (rest : Reads step t nodes u) : Reads step s (n :: nodes) u

theorem reads_of_ok {σ : Type} {read : σ → Node → Except RestoreError σ} {nodes : List Node}
    {s t : σ} (h : nodes.foldlM read s = .ok t) :
    Reads (fun s n t => read s n = .ok t) s nodes t := by
  induction nodes generalizing s with
  | nil =>
    obtain rfl := Except.ok.inj h
    exact .nil s
  | cons n nodes ih =>
    rw [List.foldlM_cons] at h
    obtain ⟨u, hu, h⟩ := Except.exists_of_bind h
    exact .cons hu (ih h)

theorem reads_of_yields {σ : Type} {read : σ → Node → Restore σ} {nodes : List Node} {s t : σ}
    (h : Restore.Yields (nodes.foldlM read s) t) :
    Reads (fun s n t => Restore.Yields (read s n) t) s nodes t := by
  induction nodes generalizing s with
  | nil =>
    obtain rfl := h.eq_of_pure
    exact .nil s
  | cons n nodes ih =>
    rw [List.foldlM_cons] at h
    obtain ⟨u, hu, h⟩ := h.exists_of_bind
    exact .cons hu (ih h)

namespace Node

/-- the nodes that a level holds, none for a leaf -/
def held : Node → List Node
  | leaf .. => []
  | level _ nodes => nodes

/-- the last of the nodes with the tag `t` -/
def last? (t : Tag) (nodes : List Node) : Option Node :=
  (nodes.filter fun n => n.name = t.name).getLast?

theorem of_last? {t : Tag} {nodes : List Node} {n : Node} (h : last? t nodes = some n) :
    n ∈ nodes ∧ n.name = t.name := by
  simpa using List.mem_filter.mp (List.mem_of_getLast? h)

/-- the time that the last node with a tag holds -/
def lastTime? (t : Tag) (nodes : List Node) : Option Int :=
  (last? t nodes).bind fun n => (n.time t).toOption

/-- the number that the last node with a tag holds -/
def lastWord? (t : Tag) (nodes : List Node) : Option Nat :=
  (last? t nodes).bind fun n => (n.word t).toOption

/-- the nodes of the last level with a tag -/
def lastLevel? (t : Tag) (nodes : List Node) : Option (List Node) :=
  (last? t nodes).bind fun n => (n.children t).toOption

end Node

namespace Reads
variable {σ : Type} {step : σ → Node → σ → Prop} {s t : σ} {nodes : List Node}

/-- what each step says of its node -/
theorem forall_mem {P : Node → Prop} (h : Reads step s nodes t)
    (hstep : ∀ s n t, step s n t → P n) : ∀ n ∈ nodes, P n := by
  induction h with
  | nil s => exact fun n hn => (List.not_mem_nil hn).elim
  | cons first rest ih =>
    intro n hn
    rcases List.mem_cons.mp hn with rfl | hn
    · exact hstep _ _ _ first
    · exact ih n hn

/-- what each step keeps of the state -/
theorem invariant {P : σ → Prop} (h : Reads step s nodes t) (hs : P s)
    (hstep : ∀ s, ∀ n ∈ nodes, ∀ t, P s → step s n t → P t) : P t := by
  induction h with
  | nil s => exact hs
  | cons first rest ih =>
    exact ih (hstep _ _ List.mem_cons_self _ hs first)
      fun s n hn t => hstep s n (List.mem_cons_of_mem _ hn) t

/-- what only the nodes with a tag write is not there without such a node -/
theorem exists_of_get {β : Type} {f : σ → Option β} {u : Tag} {b : β} (h : Reads step s nodes t)
    (hs : f s = none) (hother : ∀ s n t, step s n t → n.name ≠ u.name → f t = f s)
    (ht : f t = some b) : ∃ n ∈ nodes, n.name = u.name := by
  apply Decidable.byContradiction
  intro hno
  have hnone : f t = none := h.invariant (P := fun s => f s = none) hs
    fun s n hn t hnone hstep => (hother s n t hstep fun hname => hno ⟨n, hn, hname⟩).trans hnone
  rw [hnone] at ht
  cases ht

/-- what a state has of the last node with a tag, if no other node touches it -/
theorem of_last {Q : Option Node → σ → Prop} {u : Tag} (h : Reads step s nodes t) (hs : Q none s)
    (hof : ∀ s n t, step s n t → n.name = u.name → Q (some n) t)
    (hother : ∀ x s n t, step s n t → n.name ≠ u.name → Q x s → Q x t) :
    Q (Node.last? u nodes) t := by
  have hlast : ∀ x, Q x s → Q ((Node.last? u nodes).or x) t := by
    clear hs
    induction h with
    | nil s => exact fun x hx => hx
    | @cons s t v n nodes first rest ih =>
      intro x hx
      unfold Node.last?
      by_cases hn : n.name = u.name
      · have h := ih (some n) (hof s n t first hn)
        rw [List.filter_cons_of_pos (by simpa using hn), List.getLast?_cons]
        unfold Node.last? at h
        cases hrest : (nodes.filter fun n => n.name = u.name).getLast? with
        | none => rwa [hrest] at h
        | some m => rwa [hrest] at h
      · rw [List.filter_cons_of_neg (by simpa using hn)]
        exact ih x (hother x s n t first hn hx)
  simpa using hlast none hs

/-- what only the nodes with a tag write is what the last one of them has written -/
theorem eq_last {β : Type} {f : σ → Option β} {value : Node → Option β} {u : Tag}
    (h : Reads step s nodes t) (hs : f s = none)
    (hof : ∀ s n t, step s n t → n.name = u.name → f t = value n)
    (hother : ∀ s n t, step s n t → n.name ≠ u.name → f t = f s) :
    f t = (Node.last? u nodes).bind value :=
  h.of_last (Q := fun x s => f s = x.bind value) hs (fun s n t hstep hn => hof s n t hstep hn)
    fun _ s n t hstep hn hx => (hother s n t hstep hn).trans hx

end Reads

/-! ## nodes at any depth -/

mutual

/-- a node and all nodes within it -/
def Node.subnodes : Node → List Node
  | .leaf tag text => [.leaf tag text]
  | .level tag nodes => .level tag nodes :: Node.subnodesOf nodes

/-- nodes and all nodes within them -/
def Node.subnodesOf : List Node → List Node
  | [] => []
  | n :: nodes => n.subnodes ++ Node.subnodesOf nodes

end

namespace Node
variable {n : Node} {nodes : List Node} {t u : Tag}

theorem mem_subnodesOf {m : Node} : m ∈ subnodesOf nodes ↔ ∃ n ∈ nodes, m ∈ n.subnodes := by
  induction nodes with
  | nil => simp [subnodesOf]
  | cons n nodes ih => simp [subnodesOf, ih]

/-- all tags, at any depth, are names in the table -/
def AllKnown (nodes : List Node) : Prop := ∀ n ∈ subnodesOf nodes, Tag.ofName? n.name ≠ none

theorem ofName?_of_tag? (h : n.tag? = .ok t) : Tag.ofName? n.name = some t := by
  unfold tag? at h
  split at h
  next u hu =>
    obtain rfl := Except.ok.inj h
    exact hu
  next => cases h

theorem name_of_tag? (h : n.tag? = .ok t) : n.name = t.name :=
  (Tag.name_of_ofName? (ofName?_of_tag? h)).symm

theorem held_of_children {inner : List Node} (h : n.children u = .ok inner) : n.held = inner := by
  cases n with
  | leaf tag text => cases h
  | level tag nodes => exact Except.ok.inj h

theorem allKnown_nil : AllKnown [] := by
  intro n hn
  cases hn

theorem allKnown_of_forall (h : ∀ n ∈ nodes, AllKnown [n]) : AllKnown nodes := by
  intro m hm
  obtain ⟨n, hn, hmn⟩ := mem_subnodesOf.mp hm
  exact h n hn m (mem_subnodesOf.mpr ⟨n, List.mem_cons_self, hmn⟩)

theorem allKnown_cons (hn : AllKnown [n]) (h : AllKnown nodes) : AllKnown (n :: nodes) := by
  intro m hm
  obtain ⟨n', hn', hmn⟩ := mem_subnodesOf.mp hm
  rcases List.mem_cons.mp hn' with rfl | hn'
  · exact hn m (mem_subnodesOf.mpr ⟨_, List.mem_cons_self, hmn⟩)
  · exact h m (mem_subnodesOf.mpr ⟨n', hn', hmn⟩)

theorem allKnown_of_text {x : String} (ht : n.tag? = .ok t) (h : n.text u = .ok x) :
    AllKnown [n] := by
  intro m hm
  cases n with
  | level tag inner => cases h
  | leaf tag text =>
    rw [List.mem_singleton.mp hm, ofName?_of_tag? ht]
    exact nofun

theorem allKnown_of_parse {α : Type} {read : String → Option α} {a : α} (ht : n.tag? = .ok t)
    (h : n.parse read u = .ok a) : AllKnown [n] := by
  unfold parse at h
  obtain ⟨x, hx, -⟩ := Except.exists_of_bind h
  exact allKnown_of_text ht hx

/-- a leaf that is parsed before the rest of a reading -/
theorem allKnown_of_parse_bind {α β : Type} {read : String → Option α}
    {f : α → Except RestoreError β} {b : β} (ht : n.tag? = .ok t)
    (h : n.parse read u >>= f = .ok b) : AllKnown [n] := by
  obtain ⟨a, ha, -⟩ := Except.exists_of_bind h
  exact allKnown_of_parse ht ha

theorem allKnown_of_children {inner : List Node} (ht : n.tag? = .ok t)
    (h : n.children u = .ok inner) (hinner : AllKnown inner) : AllKnown [n] := by
  intro m hm
  cases n with
  | leaf tag text => cases h
  | level tag inner' =>
    obtain rfl := Except.ok.inj h
    obtain ⟨n, hn, hmn⟩ := mem_subnodesOf.mp hm
    rw [List.mem_singleton.mp hn, subnodes] at hmn
    rcases List.mem_cons.mp hmn with rfl | hmem
    · rw [ofName?_of_tag? ht]
      exact nofun
    · exact hinner m hmem

end Node

/-- a document that is the state of a gatherer is one level with the tag of its kind -/
theorem Snapshot.nodes_of_body {kind : SeriesKind} {d : Document} {nodes : List Node}
    (h : body kind d = .ok nodes) : d.nodes = [kind.tag.level nodes] := by
  obtain ⟨top⟩ := d
  unfold body at h
  cases top with
  | nil => cases h
  | cons n rest =>
    simp only at h
    obtain ⟨t, ht, h⟩ := Except.exists_of_bind h
    split at h
    · cases h
    next hkind =>
      obtain rfl : t = kind.tag := Decidable.of_not_not hkind
      split at h
      next extra rest =>
        obtain ⟨u, -, h⟩ := Except.exists_of_bind h
        cases h
      next =>
        cases n with
        | leaf tag text => cases h
        | level tag inner =>
          obtain rfl := Except.ok.inj h
          obtain rfl : tag = kind.tag.name := Node.name_of_tag? ht
          rfl

end EventBuckets
