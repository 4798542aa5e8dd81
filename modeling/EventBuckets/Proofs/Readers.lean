import EventBuckets.Proofs.Reading

/-!
# The steps of the readers

What each reader makes of one node that it takes: the tag of the node, whether it is a level, and how
the state changes.

* `Aggregates.readField_cases`, `Aggregates.readEntry_spec`, `Aggregates.readPart_cases`
                          the counts of a bucket;
* `Metrics.readField_spec`, `DistinctTexts.readField_spec`, `SampleCounts.readField_spec`
                          the fields of other entries, and `readEntry_spec` the entries;
* `Ring.readBucket_spec`, `Ring.readNode_cases`
                          a ring;
* `Spans.readField_cases`, `Spans.readSpan_cases`
                          spans.
-/

set_option linter.unusedSectionVars false

namespace EventBuckets
open Node Restore

theorem of_required {β : Type} {t : Tag} {o : Option β} {b : β} (h : required t o = .ok b) :
    o = some b := by
  cases o with
  | none => cases h
  | some b' => exact congrArg some (Except.ok.inj h)

namespace Node
variable {n : Node} {t : Tag}

def isText : Node → Bool
  | leaf .. => true
  | level .. => false

theorem isText_of_text {x : String} (h : n.text t = .ok x) : n.isText = true := by
  cases n with
  | leaf tag text => rfl
  | level tag nodes => cases h

theorem isText_of_parse {α : Type} {read : String → Option α} {a : α}
    (h : n.parse read t = .ok a) : n.isText = true := by
  obtain ⟨x, hx, -⟩ := Except.exists_of_bind h
  exact isText_of_text hx

theorem isText_of_children {inner : List Node} (h : n.children t = .ok inner) :
    n.isText = false := by
  cases n with
  | leaf tag text => cases h
  | level tag nodes => rfl

end Node

/-! ## counts of a bucket -/

namespace Aggregates
variable {n : Node}

/-- what a field of an entry says -/
theorem readField_cases {e e' : Entry} (h : Yields (readField e n) e') :
    (n.name = Tag.pid.name ∧ ∃ x, n.word .pid = .ok x ∧ e' = { e with pid := some x }) ∨
    (n.name = Tag.cid.name ∧ ∃ x, n.word .cid = .ok x ∧ e' = { e with cid := some x }) ∨
    (n.name = Tag.influence.name ∧
      ∃ x, n.text .influence = .ok x ∧ e' = { e with influence := some x }) ∨
    (n.name = Tag.value.name ∧ ∃ x, n.word .value = .ok x ∧ e' = { e with value := some x }) := by
  obtain ⟨t, ht, h⟩ := h.exists_of_bind
  have hname := name_of_tag? ht.eq_ok
  split at h
  · obtain ⟨x, hx, h⟩ := h.exists_of_bind
    exact .inl ⟨hname, x, hx.eq_ok, h.eq_of_pure.symm⟩
  · obtain ⟨x, hx, h⟩ := h.exists_of_bind
    exact .inr (.inl ⟨hname, x, hx.eq_ok, h.eq_of_pure.symm⟩)
  · obtain ⟨x, hx, h⟩ := h.exists_of_bind
    obtain ⟨_, -, h⟩ := h.exists_of_bind
    exact .inr (.inr (.inl ⟨hname, x, hx.eq_ok, h.eq_of_pure.symm⟩))
  · obtain ⟨x, hx, h⟩ := h.exists_of_bind
    exact .inr (.inr (.inr ⟨hname, x, hx.eq_ok, h.eq_of_pure.symm⟩))
  · exact (not_yields_throw _ _ h).elim

/-- a field is a text with one of the tags, and changes what it names -/
theorem readField_spec {e e' : Entry} (h : Yields (readField e n) e') :
    n.isText = true ∧ (∃ t ∈ [Tag.pid, .cid, .influence, .value], n.name = t.name) ∧
      (n.name ≠ Tag.pid.name → e'.pid = e.pid) ∧ (n.name ≠ Tag.cid.name → e'.cid = e.cid) ∧
      (n.name ≠ Tag.influence.name → e'.influence = e.influence) ∧
      (n.name ≠ Tag.value.name → e'.value = e.value) := by
  rcases readField_cases h with ⟨hname, x, hx, rfl⟩ | ⟨hname, x, hx, rfl⟩ | ⟨hname, x, hx, rfl⟩ |
    ⟨hname, x, hx, rfl⟩
  · exact ⟨isText_of_parse hx, ⟨.pid, by simp, hname⟩, fun hne => (hne hname).elim, fun _ => rfl,
      fun _ => rfl, fun _ => rfl⟩
  · exact ⟨isText_of_parse hx, ⟨.cid, by simp, hname⟩, fun _ => rfl, fun hne => (hne hname).elim,
      fun _ => rfl, fun _ => rfl⟩
  · exact ⟨isText_of_text hx, ⟨.influence, by simp, hname⟩, fun _ => rfl, fun _ => rfl,
      fun hne => (hne hname).elim, fun _ => rfl⟩
  · exact ⟨isText_of_parse hx, ⟨.value, by simp, hname⟩, fun _ => rfl, fun _ => rfl, fun _ => rfl,
      fun hne => (hne hname).elim⟩

/-- an entry is a level with any tag -/
theorem readEntry_spec {e : Entry} (h : Yields (readEntry n) e) :
    (∃ t : Tag, n.name = t.name) ∧ n.isText = false ∧
      Yields (n.held.foldlM readField ⟨none, none, none, none⟩) e := by
  obtain ⟨t, ht, h⟩ := h.exists_of_bind
  obtain ⟨inner, hinner, h⟩ := h.exists_of_bind
  rw [← held_of_children hinner.eq_ok] at h
  exact ⟨⟨t, name_of_tag? ht.eq_ok⟩, isText_of_children hinner.eq_ok, h⟩

theorem readCount_spec {m m' : PairMap Nat} (h : Yields (readCount m n) m') :
    ∃ e p k, Yields (readEntry n) e ∧ e.pid = some p.person ∧ e.cid = some p.attr ∧
      e.value = some k ∧ m' = m.insert p k := by
  obtain ⟨e, he, h⟩ := h.exists_of_bind
  obtain ⟨k, hk, h⟩ := h.exists_of_bind
  obtain ⟨p, hp, h⟩ := h.exists_of_bind
  obtain ⟨pid, hpid, hp⟩ := Except.exists_of_bind hp.eq_ok
  obtain ⟨cid, hcid, hp⟩ := Except.exists_of_bind hp
  obtain rfl := Except.ok.inj hp
  exact ⟨e, _, k, he, of_required hpid, of_required hcid, of_required hk.eq_ok,
    h.eq_of_pure.symm⟩

theorem readNull_spec {s s' : PairSet} (h : Yields (readNull s n) s') :
    ∃ e p, Yields (readEntry n) e ∧ e.pid = some p.person ∧ e.cid = some p.attr ∧
      s' = s.insert p := by
  obtain ⟨e, he, h⟩ := h.exists_of_bind
  obtain ⟨p, hp, h⟩ := h.exists_of_bind
  obtain ⟨pid, hpid, hp⟩ := Except.exists_of_bind hp.eq_ok
  obtain ⟨cid, hcid, hp⟩ := Except.exists_of_bind hp
  obtain rfl := Except.ok.inj hp
  exact ⟨e, _, he, of_required hpid, of_required hcid, h.eq_of_pure.symm⟩

theorem readInfluence_spec {f f' : InfluenceCounts} (h : Yields (readInfluence f n) f') :
    ∃ e p x k, Yields (readEntry n) e ∧ e.pid = some p.person ∧ e.cid = some p.attr ∧
      e.influence = some x ∧ e.value = some k ∧ f' = f.insert ⟨p, x⟩ k := by
  obtain ⟨e, he, h⟩ := h.exists_of_bind
  obtain ⟨k, hk, h⟩ := h.exists_of_bind
  obtain ⟨x, hx, h⟩ := h.exists_of_bind
  obtain ⟨p, hp, h⟩ := h.exists_of_bind
  obtain ⟨pid, hpid, hp⟩ := Except.exists_of_bind hp.eq_ok
  obtain ⟨cid, hcid, hp⟩ := Except.exists_of_bind hp
  obtain rfl := Except.ok.inj hp
  exact ⟨e, _, x, k, he, of_required hpid, of_required hcid, of_required hx.eq_ok,
    of_required hk.eq_ok, h.eq_of_pure.symm⟩

theorem readInfluenceField_spec {fields fields' : List InfluenceCounts}
    (h : Yields (readInfluenceField fields n) fields') :
    n.name = Tag.influenceField.name ∧ n.isText = false ∧
      ∃ f, Yields (n.held.foldlM readInfluence ∅) f ∧ fields' = fields ++ [f] := by
  obtain ⟨t, ht, h⟩ := h.exists_of_bind
  split at h
  · exact (not_yields_throw_bind _ _ _ h).elim
  next hfield =>
    obtain rfl : t = .influenceField := Decidable.of_not_not hfield
    obtain ⟨inner, hinner, h⟩ := h.exists_of_bind
    obtain ⟨f, hf, h⟩ := h.exists_of_bind
    rw [← held_of_children hinner.eq_ok] at hf
    exact ⟨name_of_tag? ht.eq_ok, isText_of_children hinner.eq_ok, f, hf, h.eq_of_pure.symm⟩

/-- a part of a bucket is a level of counts, of nulls or of influences -/
theorem readPart_cases {a a' : Aggregates} (h : Yields (a.readPart n) a') :
    n.isText = false ∧
      ((n.name = Tag.counts.name ∧
        ∃ m, Yields (n.held.foldlM readCount a.counts) m ∧ a' = { a with counts := m }) ∨
      (n.name = Tag.explicitNulls.name ∧
        ∃ s, Yields (n.held.foldlM readNull a.nulls) s ∧ a' = { a with nulls := s }) ∨
      (n.name = Tag.influencers.name ∧ ∃ fields,
        Yields (n.held.foldlM readInfluenceField a.influencers) fields ∧
          a' = { a with influencers := fields })) := by
  obtain ⟨t, ht, h⟩ := h.exists_of_bind
  have hname := name_of_tag? ht.eq_ok
  split at h
  · obtain ⟨inner, hinner, h⟩ := h.exists_of_bind
    obtain ⟨m, hm, h⟩ := h.exists_of_bind
    rw [← held_of_children hinner.eq_ok] at hm
    exact ⟨isText_of_children hinner.eq_ok, .inl ⟨hname, m, hm, h.eq_of_pure.symm⟩⟩
  · obtain ⟨inner, hinner, h⟩ := h.exists_of_bind
    obtain ⟨s, hs, h⟩ := h.exists_of_bind
    rw [← held_of_children hinner.eq_ok] at hs
    exact ⟨isText_of_children hinner.eq_ok, .inr (.inl ⟨hname, s, hs, h.eq_of_pure.symm⟩)⟩
  · obtain ⟨inner, hinner, h⟩ := h.exists_of_bind
    obtain ⟨fields, hfields, h⟩ := h.exists_of_bind
    rw [← held_of_children hinner.eq_ok] at hfields
    exact ⟨isText_of_children hinner.eq_ok,
      .inr (.inr ⟨hname, fields, hfields, h.eq_of_pure.symm⟩)⟩
  · exact (not_yields_throw _ _ h).elim

end Aggregates

/-! ## entries of series -/

namespace Metrics
variable {n : Node}

/-- a field is a text with one of the tags, and only the pair that it names changes -/
theorem readField_spec {e e' : Entry} (h : readField e n = .ok e') :
    n.isText = true ∧
      (∃ t ∈ [Tag.pid, .cid, .measurements, .sum, .min, .max], n.name = t.name) ∧
      (n.name ≠ Tag.pid.name → e'.pid = e.pid) ∧ (n.name ≠ Tag.cid.name → e'.cid = e.cid) := by
  obtain ⟨t, ht, h⟩ := Except.exists_of_bind h
  have hname := name_of_tag? ht
  split at h
  case h_7 => cases h
  case h_1 =>
    obtain ⟨x, hx, h⟩ := Except.exists_of_bind h
    obtain rfl := Except.ok.inj h
    exact ⟨isText_of_parse hx, ⟨.pid, by simp, hname⟩, fun hne => (hne hname).elim, fun _ => rfl⟩
  case h_2 =>
    obtain ⟨x, hx, h⟩ := Except.exists_of_bind h
    obtain rfl := Except.ok.inj h
    exact ⟨isText_of_parse hx, ⟨.cid, by simp, hname⟩, fun _ => rfl, fun hne => (hne hname).elim⟩
  all_goals
    obtain ⟨x, hx, h⟩ := Except.exists_of_bind h
    obtain rfl := Except.ok.inj h
    exact ⟨isText_of_parse hx, ⟨_, by simp, hname⟩, fun _ => rfl, fun _ => rfl⟩

theorem readEntry_spec {m m' : Metrics} (h : m.readEntry n = .ok m') :
    n.name = Tag.entry.name ∧ n.isText = false ∧ ∃ e p,
      n.held.foldlM readField ⟨none, none, ∅⟩ = .ok e ∧ e.pid = some p.person ∧
        e.cid = some p.attr ∧ m' = ⟨m.byPair.insert p e.stats⟩ := by
  obtain ⟨t, ht, h⟩ := Except.exists_of_bind h
  split at h
  · cases h
  next hentry =>
    obtain rfl : t = .entry := Decidable.of_not_not hentry
    obtain ⟨inner, hinner, h⟩ := Except.exists_of_bind h
    obtain ⟨e, he, h⟩ := Except.exists_of_bind h
    obtain ⟨pid, hpid, h⟩ := Except.exists_of_bind h
    obtain ⟨cid, hcid, h⟩ := Except.exists_of_bind h
    obtain rfl := Except.ok.inj h
    rw [← held_of_children hinner] at he
    exact ⟨name_of_tag? ht, isText_of_children hinner, e, ⟨pid, cid⟩, he, of_required hpid,
      of_required hcid, rfl⟩

end Metrics

namespace DistinctTexts
variable {n : Node}

/-- a field is a text with one of the tags, and only the pair that it names changes -/
theorem readField_spec {e e' : Entry} (h : Yields (readField e n) e') :
    n.isText = true ∧ (∃ t ∈ [Tag.pid, .cid, .text], n.name = t.name) ∧
      (n.name ≠ Tag.pid.name → e'.pid = e.pid) ∧ (n.name ≠ Tag.cid.name → e'.cid = e.cid) := by
  obtain ⟨t, ht, h⟩ := h.exists_of_bind
  have hname := name_of_tag? ht.eq_ok
  split at h
  · obtain ⟨x, hx, h⟩ := h.exists_of_bind
    obtain rfl := h.eq_of_pure
    exact ⟨isText_of_parse hx.eq_ok, ⟨.pid, by simp, hname⟩, fun hne => (hne hname).elim,
      fun _ => rfl⟩
  · obtain ⟨x, hx, h⟩ := h.exists_of_bind
    obtain rfl := h.eq_of_pure
    exact ⟨isText_of_parse hx.eq_ok, ⟨.cid, by simp, hname⟩, fun _ => rfl,
      fun hne => (hne hname).elim⟩
  · obtain ⟨x, hx, h⟩ := h.exists_of_bind
    obtain ⟨_, -, h⟩ := h.exists_of_bind
    obtain rfl := h.eq_of_pure
    exact ⟨isText_of_text hx.eq_ok, ⟨.text, by simp, hname⟩, fun _ => rfl, fun _ => rfl⟩
  · exact (not_yields_throw _ _ h).elim

theorem readEntry_spec {d d' : DistinctTexts} (h : Yields (d.readEntry n) d') :
    n.name = Tag.entry.name ∧ n.isText = false ∧ ∃ e p,
      Yields (n.held.foldlM readField ⟨none, none, ∅⟩) e ∧ e.pid = some p.person ∧
        e.cid = some p.attr ∧ d' = ⟨d.byPair.insert p e.texts⟩ := by
  obtain ⟨t, ht, h⟩ := h.exists_of_bind
  split at h
  · exact (not_yields_throw_bind _ _ _ h).elim
  next hentry =>
    obtain rfl : t = .entry := Decidable.of_not_not hentry
    obtain ⟨inner, hinner, h⟩ := h.exists_of_bind
    obtain ⟨e, he, h⟩ := h.exists_of_bind
    obtain ⟨pid, hpid, h⟩ := h.exists_of_bind
    obtain ⟨cid, hcid, h⟩ := h.exists_of_bind
    rw [← held_of_children hinner.eq_ok] at he
    exact ⟨name_of_tag? ht.eq_ok, isText_of_children hinner.eq_ok, e, ⟨pid, cid⟩, he,
      of_required hpid.eq_ok, of_required hcid.eq_ok, h.eq_of_pure.symm⟩

end DistinctTexts

namespace SampleCounts
variable {n : Node}

/-- a field is a text with one of the tags, and changes what it names -/
theorem readField_spec {e e' : Entry} (h : readField e n = .ok e') :
    n.isText = true ∧ (∃ t ∈ [Tag.pid, .value], n.name = t.name) ∧
      (n.name ≠ Tag.pid.name → e'.pid = e.pid) ∧
      (n.name ≠ Tag.value.name → e'.value = e.value) := by
  obtain ⟨t, ht, h⟩ := Except.exists_of_bind h
  have hname := name_of_tag? ht
  split at h
  · obtain ⟨x, hx, h⟩ := Except.exists_of_bind h
    obtain rfl := Except.ok.inj h
    exact ⟨isText_of_parse hx, ⟨.pid, by simp, hname⟩, fun hne => (hne hname).elim, fun _ => rfl⟩
  · obtain ⟨x, hx, h⟩ := Except.exists_of_bind h
    obtain rfl := Except.ok.inj h
    exact ⟨isText_of_parse hx, ⟨.value, by simp, hname⟩, fun _ => rfl,
      fun hne => (hne hname).elim⟩
  · cases h

/-- an entry is a level with any tag -/
theorem readEntry_spec {s s' : SampleCounts} (h : s.readEntry n = .ok s') :
    (∃ t : Tag, n.name = t.name) ∧ n.isText = false ∧ ∃ e person value,
      n.held.foldlM readField ⟨none, none⟩ = .ok e ∧ e.pid = some person ∧
        e.value = some value ∧ s' = s.set person value := by
  obtain ⟨t, ht, h⟩ := Except.exists_of_bind h
  obtain ⟨inner, hinner, h⟩ := Except.exists_of_bind h
  obtain ⟨e, he, h⟩ := Except.exists_of_bind h
  obtain ⟨person, hperson, h⟩ := Except.exists_of_bind h
  obtain ⟨value, hvalue, h⟩ := Except.exists_of_bind h
  rw [← held_of_children hinner] at he
  exact ⟨⟨t, name_of_tag? ht⟩, isText_of_children hinner, e, person, value, he,
    of_required hperson, of_required hvalue, (Except.ok.inj h).symm⟩

end SampleCounts

/-! ## rings -/

namespace Ring
variable {α : Type} [PairData α] {n : Node} {nodes : List Node} {latency : Nat} {length : Int}

/-- a bucket that is read is put into its place, which the ring has -/
theorem readBucket_spec {r r' : Ring α} (h : Yields (r.readBucket nodes) r') :
    ∃ first rest time item, nodes = first :: rest ∧ first.name = Tag.time.name ∧
      first.time .time = .ok time ∧ r.contains time = true ∧ Yields (restore rest) item ∧
      r' = r.modify time fun _ => item := by
  unfold readBucket at h
  split at h
  · exact (not_yields_throw _ _ h).elim
  next first rest =>
    obtain ⟨t, ht, h⟩ := h.exists_of_bind
    split at h
    · exact (not_yields_throw_bind _ _ _ h).elim
    next htag =>
      obtain rfl : t = .time := Decidable.of_not_not htag
      obtain ⟨time, htime, h⟩ := h.exists_of_bind
      obtain ⟨item, hitem, h⟩ := h.exists_of_bind
      split at h
      next hc =>
        exact ⟨first, rest, time, item, rfl, name_of_tag? ht.eq_ok, htime.eq_ok, hc, hitem,
          h.eq_of_pure.symm⟩
      · exact (not_yields_throw _ _ h).elim

/-- a node of a ring says where the window ends, or it is a bucket -/
theorem readNode_cases {r r' : Option (Ring α)} (h : Yields (readNode latency length r n) r') :
    (n.name = Tag.latestStart.name ∧
      ∃ t, n.time .latestStart = .ok t ∧ r' = some (new latency length t)) ∨
    (n.name = Tag.bucket.name ∧ n.isText = false ∧
      ∃ ring ring', r = some ring ∧ Yields (ring.readBucket n.held) ring' ∧ r' = some ring') := by
  obtain ⟨t, ht, h⟩ := h.exists_of_bind
  have hname := name_of_tag? ht.eq_ok
  split at h
  · obtain ⟨time, htime, h⟩ := h.exists_of_bind
    exact .inl ⟨hname, time, htime.eq_ok, h.eq_of_pure.symm⟩
  · obtain ⟨ring, hring, h⟩ := h.exists_of_bind
    obtain ⟨inner, hinner, h⟩ := h.exists_of_bind
    obtain ⟨ring', hring', h⟩ := h.exists_of_bind
    rw [← held_of_children hinner.eq_ok] at hring'
    exact .inr ⟨hname, isText_of_children hinner.eq_ok, ring, ring', of_required hring.eq_ok,
      hring', h.eq_of_pure.symm⟩
  · exact (not_yields_throw _ _ h).elim

end Ring

/-! ## spans -/

namespace Spans
variable {α : Type} [PairData α] {n : Node}

/-- what a field of a span says -/
theorem readField_cases {f f' : Fields α} (h : Yields (readField f n) f') :
    (n.name = Tag.span.name ∧ ∃ x, n.time .span = .ok x ∧ f' = { f with length := some x }) ∨
    (n.name = Tag.spanStart.name ∧
      ∃ x, n.time .spanStart = .ok x ∧ f' = { f with start := some x }) ∨
    (n.name = Tag.bucket.name ∧ n.isText = false ∧
      ∃ a, Yields (restore n.held) a ∧ f' = { f with contents := some a }) := by
  obtain ⟨t, ht, h⟩ := h.exists_of_bind
  have hname := name_of_tag? ht.eq_ok
  split at h
  · obtain ⟨x, hx, h⟩ := h.exists_of_bind
    exact .inl ⟨hname, x, hx.eq_ok, h.eq_of_pure.symm⟩
  · obtain ⟨x, hx, h⟩ := h.exists_of_bind
    exact .inr (.inl ⟨hname, x, hx.eq_ok, h.eq_of_pure.symm⟩)
  · obtain ⟨inner, hinner, h⟩ := h.exists_of_bind
    obtain ⟨a, ha, h⟩ := h.exists_of_bind
    rw [← held_of_children hinner.eq_ok] at ha
    exact .inr (.inr ⟨hname, isText_of_children hinner.eq_ok, a, ha, h.eq_of_pure.symm⟩)
  · exact (not_yields_throw _ _ h).elim

/-- a span that is read is of a length not read before -/
theorem readSpan_cases {s s' : Spans α} {seen seen' : Std.ExtTreeSet Int compare}
    (h : Yields (readSpan (s, seen) n) (s', seen')) :
    n.name = Tag.span.name ∧ n.isText = false ∧ ∃ f length span,
      Yields (n.held.foldlM readField ⟨none, none, none⟩) f ∧ f.length = some length ∧
      s.hasLength length = true ∧ seen.contains length = false ∧ f.span = .ok span ∧
      s' = ⟨s.byLength.insert length span⟩ ∧ seen' = seen.insert length := by
  obtain ⟨t, ht, h⟩ := h.exists_of_bind
  split at h
  · exact (not_yields_throw_bind _ _ _ h).elim
  next htag =>
    obtain rfl : t = .span := Decidable.of_not_not htag
    obtain ⟨inner, hinner, h⟩ := h.exists_of_bind
    obtain ⟨f, hf, h⟩ := h.exists_of_bind
    obtain ⟨length, hlength, h⟩ := h.exists_of_bind
    split at h
    · exact (not_yields_throw_bind _ _ _ h).elim
    next hnew =>
      obtain ⟨span, hspan, h⟩ := h.exists_of_bind
      obtain ⟨rfl, rfl⟩ := Prod.mk.inj h.eq_of_pure
      rw [← held_of_children hinner.eq_ok] at hf
      rw [Bool.not_eq_true, Bool.or_eq_false_iff, Bool.not_eq_false'] at hnew
      exact ⟨name_of_tag? ht.eq_ok, isText_of_children hinner.eq_ok, f, length, span, hf,
        of_required hlength.eq_ok, hnew.1, hnew.2, hspan.eq_ok, rfl, rfl⟩

end Spans

end EventBuckets
