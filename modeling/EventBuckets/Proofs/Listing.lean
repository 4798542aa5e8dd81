import EventBuckets.Gatherer.Queries
import EventBuckets.Proofs.RestoredCounts

/-!
# The counts that a document lists

A restored gatherer holds just the counts that nothing written later takes back.  Of levels with the
same tag the last one counts, of entries of a pair and of buckets of the same time too; an end of the
window takes back the buckets before it, and a span without a start takes back its own contents.

* `Lasting`                an element of a list after which nothing clears it;
* `Reads.holds_iff`        what is held after a reading, if each node writes or clears it;
* `Aggregates.Lists`, `Ring.Lists`, `Spans.Lists`
                           the counts that a bucket, a ring and spans list;
* `Document.ListsInBucket`, `Document.ListsInSpan`
                           the counts that a document lists for a bucket and for a span;
* `holds_what_lasts`       a restored gatherer holds just these, each in its place.
-/

set_option linter.unusedSectionVars false

namespace EventBuckets
open Node Restore

/-! ## lasting elements -/

section
variable {α : Type}

/-- an element of a list after which nothing clears it -/
def Lasting (clears : α → Prop) (l : List α) (a : α) : Prop :=
  ∃ later, a :: later <:+ l ∧ ∀ b ∈ later, ¬clears b

variable {clears : α → Prop} {l : List α} {a b : α}

theorem not_lasting_nil : ¬Lasting clears [] a := by
  rintro ⟨later, h, -⟩
  cases List.suffix_nil.mp h

theorem lasting_cons :
    Lasting clears (b :: l) a ↔ (a = b ∧ ∀ c ∈ l, ¬clears c) ∨ Lasting clears l a := by
  unfold Lasting
  simp only [List.suffix_cons_iff, or_and_right, exists_or, List.cons.injEq]
  exact or_congr_left ⟨fun ⟨_, ⟨ha, hl⟩, h⟩ => ⟨ha, hl ▸ h⟩, fun ⟨ha, h⟩ => ⟨l, ⟨ha, rfl⟩, h⟩⟩

theorem Lasting.mem (h : Lasting clears l a) : a ∈ l := by
  obtain ⟨later, hlater, -⟩ := h
  exact hlater.subset List.mem_cons_self

instance decidableLasting [DecidableEq α] [DecidablePred clears] (a : α) :
    (l : List α) → Decidable (Lasting clears l a)
  | [] => isFalse not_lasting_nil
  | b :: l =>
    have := decidableLasting a l
    decidable_of_iff ((a = b ∧ ∀ c ∈ l, ¬clears c) ∨ Lasting clears l a) lasting_cons.symm

theorem lasting_of_never (h : ∀ b, ¬clears b) : Lasting clears l a ↔ a ∈ l := by
  induction l with
  | nil => simp [not_lasting_nil]
  | cons b l ih => simp [lasting_cons, ih, h]

end

/-- what is held after a reading, if each node writes it (`W`), clears it (`C`) or leaves it alone -/
theorem Reads.holds_iff {σ : Type} {step : σ → Node → σ → Prop} {s t : σ} {nodes : List Node}
    {I P : σ → Prop} {W C : Node → Prop} (h : Reads step s nodes t) (hs : I s) (hnone : ¬P s)
    (hstep : ∀ s n t, I s → step s n t → I t ∧ (P t ↔ W n ∨ (P s ∧ ¬C n))) :
    P t ↔ ∃ n, Lasting C nodes n ∧ W n := by
  -- what is held at the start is held at the end if no node at all clears it
  have hall : P t ↔ (∃ n, Lasting C nodes n ∧ W n) ∨ (P s ∧ ∀ n ∈ nodes, ¬C n) := by
    clear hnone
    induction h with
    | nil s => simp [not_lasting_nil]
    | @cons s t u n nodes first rest ih =>
      obtain ⟨ht, hiff⟩ := hstep s n t hs first
      have hcons : (∃ m, Lasting C (n :: nodes) m ∧ W m) ↔
          (W n ∧ ∀ m ∈ nodes, ¬C m) ∨ ∃ m, Lasting C nodes m ∧ W m := by
        simp only [lasting_cons, or_and_right, exists_or, and_assoc, exists_eq_left]
        rw [and_comm]
      rw [ih ht, hiff, hcons, List.forall_mem_cons, or_and_right, and_assoc, ← or_assoc]
      exact or_congr_left or_comm
  rw [hall]
  exact or_iff_left fun h => hnone h.1

theorem getElem?_insertMany_iff {m : PairMap Nat} {l : List (Pair × Nat)} {p : Pair} {k : Nat} :
    (m.insertMany l)[p]? = some k ↔
      Lasting (fun e => e.1 = p) l (p, k) ∨ (m[p]? = some k ∧ ∀ e ∈ l, e.1 ≠ p) := by
  induction l generalizing m with
  | nil => simp [not_lasting_nil]
  | cons e l ih =>
    obtain ⟨q, n⟩ := e
    rw [Std.ExtTreeMap.insertMany_cons, ih, Std.ExtTreeMap.getElem?_insert, lasting_cons,
      List.forall_mem_cons]
    by_cases hq : q = p
    · subst hq
      simp [eq_comm, or_comm]
    · have hne : (p, k) ≠ (q, n) := fun h => hq (Prod.mk.inj h).1.symm
      simp [hq, hne]

/-! ## buckets -/

namespace Aggregates
variable {n : Node} {nodes : List Node} {a : Aggregates}

/-- the pair and the count that an entry names -/
def entryOf? (n : Node) : Option (Pair × Nat) := do
  return (⟨← lastWord? .pid n.held, ← lastWord? .cid n.held⟩, ← lastWord? .value n.held)

/-- the entries of all counts of a bucket -/
def listed (nodes : List Node) : List (Pair × Nat) :=
  (nodes.filter fun n => n.name = Tag.counts.name).flatMap fun n => n.held.filterMap entryOf?

/-- a count that a bucket lists and no later entry of its pair replaces -/
def Lists (nodes : List Node) (e : Pair × Nat) : Prop :=
  Lasting (fun f => f.1 = e.1) (listed nodes) e

instance (nodes : List Node) (e : Pair × Nat) : Decidable (Lists nodes e) :=
  inferInstanceAs (Decidable (Lasting (fun f => f.1 = e.1) (listed nodes) e))

theorem entryOf?_of_readCount {m m' : PairMap Nat} (h : Yields (readCount m n) m') :
    ∃ p k, entryOf? n = some (p, k) ∧ m' = m.insert p k := by
  obtain ⟨e, p, k, he, hpid, hcid, hk, rfl⟩ := readCount_spec h
  have hlast {t : Tag} (ht : t ∈ [Tag.pid, .cid, .value]) : lastWord? t n.held = e.number? t :=
    (number?_of_readEntry he ht).symm
  refine ⟨p, k, ?_, rfl⟩
  unfold entryOf?
  rw [hlast (t := .pid) (by decide), hlast (t := .cid) (by decide), hlast (t := .value) (by decide)]
  unfold Entry.number?
  rw [hpid, hcid, hk]
  rfl

theorem insertMany_of_readCounts {m m' : PairMap Nat} (h : Yields (nodes.foldlM readCount m) m') :
    m' = m.insertMany (nodes.filterMap entryOf?) := by
  have hreads := reads_of_yields h
  clear h
  induction hreads with
  | nil m => rfl
  | cons first rest ih =>
    obtain ⟨p, k, hentry, rfl⟩ := entryOf?_of_readCount first
    rw [ih, List.filterMap_cons_some hentry, Std.ExtTreeMap.insertMany_cons]

theorem listed_cons_of_eq (h : n.name = Tag.counts.name) :
    listed (n :: nodes) = n.held.filterMap entryOf? ++ listed nodes := by
  unfold listed
  rw [List.filter_cons_of_pos (by simpa using h), List.flatMap_cons]

theorem listed_cons_of_ne (h : n.name ≠ Tag.counts.name) : listed (n :: nodes) = listed nodes := by
  unfold listed
  rw [List.filter_cons_of_neg (by simpa using h)]

theorem insertMany_of_readParts {a' : Aggregates} (h : Yields (nodes.foldlM readPart a) a') :
    a'.counts = a.counts.insertMany (listed nodes) := by
  have hreads := reads_of_yields h
  clear h
  induction hreads with
  | nil a => rfl
  | cons first rest ih =>
    obtain ⟨-, ⟨hname, m, hm, rfl⟩ | ⟨hname, s, -, rfl⟩ | ⟨hname, fields, -, rfl⟩⟩ :=
      readPart_cases first
    · rw [ih, listed_cons_of_eq hname, Std.ExtTreeMap.insertMany_append,
        insertMany_of_readCounts hm]
    · rw [ih, listed_cons_of_ne (by rw [hname]; decide)]
    · rw [ih, listed_cons_of_ne (by rw [hname]; decide)]

/-- the counts of a bucket that has been read are those that it lists -/
theorem counts_of_restore (h : Yields (restore nodes) a) (p : Pair) (k : Nat) :
    a.counts[p]? = some k ↔ Lists nodes (p, k) := by
  have hcounts : a.counts = (∅ : PairMap Nat).insertMany (listed nodes) := insertMany_of_readParts h
  rw [hcounts, getElem?_insertMany_iff]
  exact or_iff_left fun h => by simp at h

end Aggregates

/-! ## rings -/

namespace Ring

section
variable {α : Type} {r : Ring α}

/-- a ring with room, where no two buckets of the window share a slot; a ring whose length is
negative is one too, if it is new, for its window holds no bucket but the newest one -/
structure Apart (r : Ring α) : Prop where
  room : 0 < r.capacity
  slot_inj : ∀ t u, r.contains t = true → r.contains u = true →
    r.slot (bucketAt t r.length) = r.slot (bucketAt u r.length) →
    bucketAt t r.length = bucketAt u r.length

theorem apart_new [EmptyCollection α] (latency : Nat) (length t : Int) :
    (new latency length t : Ring α).Apart := by
  refine ⟨by simp, fun u v hu hv hslot => ?_⟩
  by_cases hpos : 0 < length
  · exact Ring.slot_inj (sound_new hpos latency t) hu hv hslot
  · have hcap : ((new latency length t : Ring α).capacity : Int) = latency + 1 := by simp
    have hle : (latency : Int) * length ≤ 0 :=
      mul_nonpos_of_nonneg_of_nonpos (Int.natCast_nonneg latency) (not_lt.mp hpos)
    rw [contains_iff] at hu hv
    unfold oldest at hu hv
    rw [hcap, add_sub_cancel_right] at hu hv
    have hlength : (new latency length t : Ring α).length = length := rfl
    rw [hlength] at hu hv ⊢
    omega

theorem Apart.modify (h : r.Apart) (t : Int) (f : α → α) : (r.modify t f).Apart := by
  refine ⟨by simpa using h.room, fun u v => ?_⟩
  simpa using h.slot_inj u v

/-- a bucket of the window is put into its place, the others stay -/
theorem Apart.get?_put (h : r.Apart) {t : Int} (ht : r.contains t = true) (a : α) (u : Int) :
    (r.modify t fun _ => a).get? u =
      if bucketAt u r.length = bucketAt t r.length then some a else r.get? u := by
  rw [get?_modify_of_inj h.slot_inj]
  split
  next heq =>
    have hu : r.contains u = true := by rwa [contains_iff, heq, ← contains_iff]
    unfold get?
    rw [if_pos hu, Array.getElem?_eq_getElem (slot_lt_of_room h.room _)]
    rfl
  next => rfl

end

/-- the time of a bucket, which its first node says -/
def timeOf? (n : Node) : Option Int :=
  if n.name = Tag.bucket.name then n.held.head?.bind fun m => (m.time .time).toOption else none

/-- a bucket of the same time -/
def IsAt (length time : Int) (n : Node) : Prop :=
  (timeOf? n).map (fun t => bucketAt t length) = some (bucketAt time length)

/-- an end of the window or a bucket of the same time -/
def Clears (length time : Int) (n : Node) : Prop :=
  n.name = Tag.latestStart.name ∨ IsAt length time n

/-- a count that a ring lists for the bucket of a time and nothing later takes back -/
def Lists (length time : Int) (nodes : List Node) (e : Pair × Nat) : Prop :=
  ∃ b, Lasting (Clears length time) nodes b ∧ IsAt length time b ∧ Aggregates.Lists b.held.tail e

instance (length time : Int) (n : Node) : Decidable (IsAt length time n) :=
  inferInstanceAs (Decidable (_ = _))

instance (length time : Int) : DecidablePred (Clears length time) :=
  fun n => inferInstanceAs (Decidable (n.name = _ ∨ IsAt length time n))

instance (length time : Int) (nodes : List Node) (e : Pair × Nat) :
    Decidable (Lists length time nodes e) :=
  decidable_of_iff (∃ b ∈ nodes, Lasting (Clears length time) nodes b ∧ IsAt length time b ∧
    Aggregates.Lists b.held.tail e)
    ⟨fun ⟨b, _, h⟩ => ⟨b, h⟩, fun ⟨b, h⟩ => ⟨b, h.1.mem, h⟩⟩

variable {n : Node} {nodes : List Node} {latency : Nat} {length time : Int} {p : Pair} {k : Nat}

/-- the bucket of a time has a count -/
def HasCount (time : Int) (p : Pair) (k : Nat) (r : Ring Aggregates) : Prop :=
  ∃ a, r.get? time = some a ∧ a.counts[p]? = some k

theorem not_hasCount_new (latency : Nat) (length t : Int) :
    ¬(new latency length t : Ring Aggregates).HasCount time p k := by
  rintro ⟨a, ha, hk⟩
  unfold get? at ha
  split at ha
  · obtain ⟨hslot, h⟩ := Array.getElem?_eq_some_iff.mp ha
    simp only [new, Array.getElem_replicate] at h
    subst h
    have hempty : (∅ : PairMap Nat)[p]? = some k := hk
    simp at hempty
  · cases ha

theorem hasCount_of_readNode {s s' : Option (Ring Aggregates)}
    (hs : ∀ r ∈ s, r.Apart ∧ r.length = length) (h : Yields (readNode latency length s n) s') :
    (∀ r ∈ s', r.Apart ∧ r.length = length) ∧ ((∃ r ∈ s', r.HasCount time p k) ↔
      (IsAt length time n ∧ Aggregates.Lists n.held.tail (p, k)) ∨
        ((∃ r ∈ s, r.HasCount time p k) ∧ ¬Clears length time n)) := by
  rcases readNode_cases h with ⟨hname, t, -, rfl⟩ | ⟨hname, -, r, r', rfl, hread, rfl⟩
  · have hat : ¬IsAt length time n := by
      unfold IsAt timeOf?
      rw [if_neg (by rw [hname]; decide)]
      exact nofun
    refine ⟨fun r hr => ?_, ?_⟩
    · obtain rfl := Option.some.inj hr
      exact ⟨apart_new latency length t, rfl⟩
    · simp [not_hasCount_new, hat, Clears, hname]
  · obtain ⟨hapart, hlength⟩ := hs r rfl
    obtain ⟨first, rest, t, item, hheld, -, ht, hcontains, hitem, rfl⟩ := readBucket_spec hread
    have hat : IsAt length time n ↔ bucketAt time r.length = bucketAt t r.length := by
      unfold IsAt timeOf?
      rw [if_pos hname, hheld, List.head?_cons, Option.bind_some, ht, hlength]
      exact Option.some_inj.trans eq_comm
    have hclears : Clears length time n ↔ IsAt length time n :=
      or_iff_right (by rw [hname]; decide)
    refine ⟨fun r' hr' => ?_, ?_⟩
    · obtain rfl := Option.some.inj hr'
      exact ⟨hapart.modify t _, (length_modify r t _).trans hlength⟩
    · rw [hclears, hat, hheld, List.tail_cons, ← Aggregates.counts_of_restore hitem p k]
      simp only [Option.mem_some_iff, exists_eq_left', HasCount, hapart.get?_put hcontains]
      by_cases heq : bucketAt time r.length = bucketAt t r.length
      · simp [heq]
      · simp [heq]

/-- the counts of a ring that has been read are those that it lists -/
theorem hasCount_of_ofNodes {r : Ring Aggregates} (h : Yields (ofNodes latency length nodes) r) :
    r.HasCount time p k ↔ Lists length time nodes (p, k) := by
  obtain ⟨s, hread, h⟩ := h.exists_of_bind
  obtain rfl := of_required h.eq_ok
  have hholds := (reads_of_yields hread).holds_iff
    (I := fun s : Option (Ring Aggregates) => ∀ r ∈ s, r.Apart ∧ r.length = length)
    (P := fun s => ∃ r ∈ s, r.HasCount time p k) (fun r hr => by cases hr)
    (fun ⟨r, hr, _⟩ => by cases hr) fun s n s' hs hstep => hasCount_of_readNode hs hstep
  have hsome : (∃ r' ∈ some r, r'.HasCount time p k) ↔ r.HasCount time p k := by simp
  exact hsome.symm.trans hholds

end Ring

/-! ## spans -/

namespace Spans
variable {s : Spans Aggregates} {n : Node} {nodes : List Node} {length : Int} {p : Pair} {k : Nat}

/-- a count of an open span -/
def ListsIn (length : Int) (n : Node) (e : Pair × Nat) : Prop :=
  lastTime? .span n.held = some length ∧ (lastTime? .spanStart n.held).isSome ∧
    ∃ b ∈ last? .bucket n.held, Aggregates.Lists b.held e

instance (length : Int) (n : Node) (e : Pair × Nat) : Decidable (ListsIn length n e) :=
  inferInstanceAs (Decidable (_ ∧ _ ∧ ∃ b ∈ last? .bucket n.held, Aggregates.Lists b.held e))

/-- a count that spans list for the open span of a length -/
def Lists (length : Int) (nodes : List Node) (e : Pair × Nat) : Prop :=
  ∃ n ∈ nodes, ListsIn length n e

instance (length : Int) (nodes : List Node) (e : Pair × Nat) : Decidable (Lists length nodes e) :=
  inferInstanceAs (Decidable (∃ n ∈ nodes, ListsIn length n e))

/-- the open span of a length has a count -/
def HasCount (length : Int) (p : Pair) (k : Nat) (s : Spans Aggregates) : Prop :=
  ∃ o, s.byLength[length]? = some (some o) ∧ o.contents.counts[p]? = some k

theorem hasCount_of_readSpan {state state' : Spans Aggregates × Std.ExtTreeSet Int compare}
    (h : Yields (readSpan state n) state') :
    (state'.2.contains length = true ∧ state'.1.HasCount length p k) ↔
      ListsIn length n (p, k) ∨ (state.2.contains length = true ∧ state.1.HasCount length p k) := by
  obtain ⟨s, seen⟩ := state
  obtain ⟨s', seen'⟩ := state'
  obtain ⟨l, span, hlength, -, hnew, hstart, hcontents, rfl, rfl⟩ := readSpan_spec h
  unfold ListsIn HasCount
  rw [hlength, ← hstart]
  by_cases hl : l = length
  · subst hl
    cases span with
    | none => simp [hnew]
    | some o =>
      obtain ⟨b, hb, hitem⟩ := hcontents o rfl
      simp [hnew, hb, Aggregates.counts_of_restore hitem p k]
  · simp [hl, Std.ExtTreeMap.getElem?_insert]

/-- the counts of spans that have been read are those that they list -/
theorem hasCount_of_ofNodes {lengths : List Int} (h : Yields (ofNodes lengths nodes) s) :
    s.HasCount length p k ↔ Lists length nodes (p, k) := by
  obtain ⟨seen, hread, hall⟩ := readSpans_of_ofNodes h
  have hholds := (reads_of_yields hread).holds_iff (I := fun _ => True) (C := fun _ => False)
    (W := fun n => ListsIn length n (p, k))
    (P := fun state : Spans Aggregates × Std.ExtTreeSet Int compare =>
      state.2.contains length = true ∧ state.1.HasCount length p k) trivial (by simp)
    fun state n state' _ hstep => ⟨trivial, by simpa using hasCount_of_readSpan hstep⟩
  have hseen : s.HasCount length p k → seen.contains length = true := by
    rintro ⟨o, ho, -⟩
    refine hall length ?_
    unfold hasLength
    rw [Std.ExtTreeMap.contains_eq_isSome_getElem?, ho]
    rfl
  simp only [lasting_of_never (fun _ => not_false)] at hholds
  exact (and_iff_right_of_imp hseen).symm.trans hholds

end Spans

/-! ## documents -/

namespace Document

/-- a count that a document lists for the bucket of a time -/
def ListsInBucket (d : Document) (length time : Int) (e : Pair × Nat) : Prop :=
  ∃ nodes ∈ lastLevel? .bucketQueue (d.nodes.flatMap held), Ring.Lists length time nodes e

instance (d : Document) (length time : Int) (e : Pair × Nat) :
    Decidable (d.ListsInBucket length time e) :=
  inferInstanceAs (Decidable (∃ nodes ∈ lastLevel? .bucketQueue (d.nodes.flatMap held),
    Ring.Lists length time nodes e))

/-- a count that a document lists for the open span of a length -/
def ListsInSpan (d : Document) (length : Int) (e : Pair × Nat) : Prop :=
  ∃ nodes ∈ lastLevel? .multiBucket (d.nodes.flatMap held), Spans.Lists length nodes e

instance (d : Document) (length : Int) (e : Pair × Nat) : Decidable (d.ListsInSpan length e) :=
  inferInstanceAs (Decidable (∃ nodes ∈ lastLevel? .multiBucket (d.nodes.flatMap held),
    Spans.Lists length nodes e))

end Document

namespace Gatherer
variable {g : Gatherer} {kind : SeriesKind} {c : Config} {d : Document}

/-- the counts of the open span of a length -/
def spanCounts (g : Gatherer) (length : Int) : List (Pair × Nat) :=
  (g.counts.spans.byLength[length]?.join.map fun o => o.contents.counts.toList).getD []

theorem mem_pairCounts {time : Int} {e : Pair × Nat} :
    e ∈ g.pairCounts time ↔ g.counts.ring.HasCount time e.1 e.2 := by
  unfold pairCounts bucket? Ring.HasCount
  cases h : g.counts.ring.get? time with
  | none => simp
  | some a => simp [Std.ExtTreeMap.mem_toList_iff_getElem?_eq_some (k := e.1) (v := e.2)]

theorem mem_spanCounts {length : Int} {e : Pair × Nat} :
    e ∈ g.spanCounts length ↔ g.counts.spans.HasCount length e.1 e.2 := by
  unfold spanCounts Spans.HasCount
  cases h : g.counts.spans.byLength[length]?.join with
  | none =>
    simp only [Option.join_eq_none_iff] at h
    rcases h with h | h <;> simp [h]
  | some o =>
    rw [Option.join_eq_some_iff] at h
    simp [h, Std.ExtTreeMap.mem_toList_iff_getElem?_eq_some (k := e.1) (v := e.2)]

/-- a restored gatherer holds just the counts that its document lists and nothing later takes back,
each in the bucket of the time and in the span of the length that are written with it -/
theorem holds_what_lasts (hr : restore kind c d = .ok g) :
    (∀ (time : Int) (e : Pair × Nat),
      e ∈ g.pairCounts time ↔ d.ListsInBucket c.bucketSeconds time e) ∧
    ∀ (length : Int) (e : Pair × Nat), e ∈ g.spanCounts length ↔ d.ListsInSpan length e := by
  obtain ⟨-, s, pool, hread, rfl⟩ := exists_of_restore hr
  obtain ⟨nodes, -, levels, hd, -, hring, hspans, hcounts, -, -⟩ := Snapshot.ofDocument_spec hread
  obtain ⟨ringNodes, hringNodes, h⟩ := hcounts.exists_of_bind
  obtain ⟨ring, hreadRing, h⟩ := h.exists_of_bind
  obtain ⟨spanNodes, hspanNodes, h⟩ := h.exists_of_bind
  obtain ⟨spans, hreadSpans, h⟩ := h.exists_of_bind
  have hwindow : ⟨ring, spans⟩ = s.counts := h.eq_of_pure
  have hbody : d.nodes.flatMap held = nodes := by
    rw [hd]
    exact List.append_nil nodes
  have hlastRing : lastLevel? .bucketQueue nodes = some ringNodes :=
    hring.symm.trans (of_required hringNodes.eq_ok)
  have hlastSpans : lastLevel? .multiBucket nodes = some spanNodes :=
    hspans.symm.trans (of_required hspanNodes.eq_ok)
  refine ⟨fun time e => ?_, fun length e => ?_⟩
  · rw [mem_pairCounts, Document.ListsInBucket, hbody, hlastRing]
    show s.counts.ring.HasCount time e.1 e.2 ↔ _
    rw [← hwindow, Ring.hasCount_of_ofNodes hreadRing]
    simp
  · rw [mem_spanCounts, Document.ListsInSpan, hbody, hlastSpans]
    show s.counts.spans.HasCount length e.1 e.2 ↔ _
    rw [← hwindow, Spans.hasCount_of_ofNodes hreadSpans]
    simp

/-- the last of two counts of a pair is held; the contents of a span without a start are not -/
theorem holds_what_lasts_of_span_without_start :
    let c : Config := { Config.default with multiBucketLengths := [.ofSecs 600] }
    let entry (n : Nat) : Node := Tag.entry.level (Aggregates.pairNodes ⟨7, 2⟩ ++ [Tag.value.nat n])
    let d : Document := ⟨[Tag.eventRateGatherer.level
      [Tag.bucketLength.int 300, Tag.bucketStart.int 0,
       Tag.bucketQueue.level [Tag.latestStart.int 0,
         Tag.bucket.level [Tag.time.int 0, Tag.counts.level [entry 3, entry 4]]],
       Tag.multiBucket.level [Tag.span.level
         [Tag.span.int 600, Tag.bucket.level [Tag.counts.level [entry 5]]]],
       Tag.series.level [Tag.bucketQueue.level [Tag.latestStart.int 0],
         Tag.multiBucket.level [Tag.span.level [Tag.span.int 600]]]]]⟩
    ∃ g, restore .eventRate c d = .ok g ∧ (⟨7, 2⟩, 4) ∈ g.pairCounts 0 ∧
      (⟨7, 2⟩, 3) ∉ g.pairCounts 0 ∧ (⟨7, 2⟩, 5) ∉ g.spanCounts 600 := by
  intro c entry d
  have hread : (restore .eventRate c d).toOption.isSome = true := by decide +kernel
  cases hr : restore .eventRate c d with
  | error e =>
    rw [hr] at hread
    cases hread
  | ok g =>
    obtain ⟨hbuckets, hspans⟩ := holds_what_lasts hr
    refine ⟨g, rfl, (hbuckets 0 _).mpr (by decide +kernel), ?_, ?_⟩
    · rw [hbuckets]
      decide +kernel
    · rw [hspans]
      decide +kernel

end Gatherer

end EventBuckets
