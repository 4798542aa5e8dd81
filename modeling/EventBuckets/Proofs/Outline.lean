import EventBuckets.Proofs.InStep
import EventBuckets.Proofs.Slots

/-!
# The outline of a document

A document names the start of the current bucket, the newest bucket of each window and the open
spans of each window.  Restoring takes each of them as it is written and compares none of them with
another one.

* `Spans.outline`, `Window.outline`, `Document.outline`
                        what is written of spans, of a window, of the clock and both windows;
* `TakesUp`             what reading spans makes of the spans that are there already;
* `covers_of_ofNodes`   a ring that is read covers the latency up to the newest bucket;
* `WindowOutline.Draws` a frame is as an outline says;
* `outline_of_restore`  a restored gatherer is as its outline says;
* `inStep_iff_outline`  it is in step just if its outline is.
-/

set_option linter.unusedSectionVars false

namespace EventBuckets
open Node Restore

/-! ## spans -/

namespace Spans
variable {α : Type} [PairData α] {n : Node} {nodes : List Node}

theorem length_of_fields {f : Fields α}
    (h : Yields (nodes.foldlM readField ⟨none, none, none⟩) f) :
    f.length = lastTime? .span nodes := by
  refine (reads_of_yields h).eq_last rfl (fun f n f' h hn => ?_) fun f n f' h hn => ?_
  · rcases readField_cases h with ⟨-, x, hx, rfl⟩ | ⟨hname, -⟩ | ⟨hname, -⟩
    · rw [hx]
      rfl
    · exact absurd (hn.symm.trans hname) (by decide)
    · exact absurd (hn.symm.trans hname) (by decide)
  · rcases readField_cases h with ⟨hname, -⟩ | ⟨-, x, -, rfl⟩ | ⟨-, -, a, -, rfl⟩
    · exact (hn hname).elim
    · rfl
    · rfl

theorem start_of_fields {f : Fields α}
    (h : Yields (nodes.foldlM readField ⟨none, none, none⟩) f) :
    f.start = lastTime? .spanStart nodes := by
  refine (reads_of_yields h).eq_last rfl (fun f n f' h hn => ?_) fun f n f' h hn => ?_
  · rcases readField_cases h with ⟨hname, -⟩ | ⟨-, x, hx, rfl⟩ | ⟨hname, -⟩
    · exact absurd (hn.symm.trans hname) (by decide)
    · rw [hx]
      rfl
    · exact absurd (hn.symm.trans hname) (by decide)
  · rcases readField_cases h with ⟨-, x, -, rfl⟩ | ⟨hname, -⟩ | ⟨-, -, a, -, rfl⟩
    · rfl
    · exact (hn hname).elim
    · rfl

/-- the lengths that nodes list, each with the start of its open span -/
def outline (nodes : List Node) : List (Int × Option Int) :=
  nodes.filterMap fun n =>
    (lastTime? .span n.held).map fun length => (length, lastTime? .spanStart n.held)

theorem contents_of_fields {f : Fields α}
    (h : Yields (nodes.foldlM readField ⟨none, none, none⟩) f) :
    ∀ a ∈ f.contents, ∃ m, last? .bucket nodes = some m ∧ Yields (restore m.held) a := by
  refine (reads_of_yields h).of_last (u := .bucket) (Q := fun m f => ∀ a ∈ f.contents,
    ∃ m', m = some m' ∧ Yields (restore m'.held) a) (fun a ha => by cases ha)
    (fun f n f' h hn => ?_) fun m f n f' h hn hf => ?_
  · rcases readField_cases h with ⟨hname, -⟩ | ⟨hname, -⟩ | ⟨-, -, a, ha, rfl⟩
    · exact absurd (hn.symm.trans hname) (by decide)
    · exact absurd (hn.symm.trans hname) (by decide)
    · intro b hb
      obtain rfl := Option.some.inj hb
      exact ⟨n, rfl, ha⟩
  · rcases readField_cases h with ⟨-, x, -, rfl⟩ | ⟨-, x, -, rfl⟩ | ⟨hname, -⟩
    · exact hf
    · exact hf
    · exact (hn hname).elim

/-- the span of fields starts where they say and holds what they hold -/
theorem of_span {f : Fields α} {span : Option (OpenSpan α)} (h : f.span = .ok span) :
    span.map OpenSpan.start = f.start ∧ ∀ o ∈ span, f.contents = some o.contents := by
  unfold Fields.span at h
  split at h
  next start hstart =>
    obtain ⟨a, ha, h⟩ := Except.exists_of_bind h
    obtain rfl := Except.ok.inj h
    refine ⟨hstart.symm, fun o ho => ?_⟩
    obtain rfl := Option.some.inj ho
    exact of_required ha
  next hnone =>
    obtain rfl := Except.ok.inj h
    exact ⟨hnone.symm, fun o ho => by cases ho⟩

/-- a span that is read is of a length not read before, and starts where it says -/
theorem readSpan_spec {s s' : Spans α} {seen seen' : Std.ExtTreeSet Int compare}
    (h : Yields (readSpan (s, seen) n) (s', seen')) :
    ∃ length, ∃ span : Option (OpenSpan α), lastTime? .span n.held = some length ∧
      s.hasLength length = true ∧ seen.contains length = false ∧
      span.map OpenSpan.start = lastTime? .spanStart n.held ∧
      (∀ o ∈ span, ∃ m, last? .bucket n.held = some m ∧ Yields (restore m.held) o.contents) ∧
      s' = ⟨s.byLength.insert length span⟩ ∧ seen' = seen.insert length := by
  obtain ⟨-, -, f, length, span, hf, hlength, hhas, hnew, hspan, rfl, rfl⟩ := readSpan_cases h
  obtain ⟨hstart, hcontents⟩ := of_span hspan
  refine ⟨length, span, ?_, hhas, hnew, ?_, fun o ho => ?_, rfl, rfl⟩
  · rw [← length_of_fields hf]
    exact hlength
  · rw [← start_of_fields hf]
    exact hstart
  · exact contents_of_fields hf _ (hcontents o ho)

theorem hasLength_insert {s : Spans α} {length : Int} (h : s.hasLength length = true)
    (span : Option (OpenSpan α)) (l : Int) :
    (⟨s.byLength.insert length span⟩ : Spans α).hasLength l = s.hasLength l := by
  unfold hasLength at *
  rw [Std.ExtTreeMap.contains_insert]
  by_cases hl : length = l
  · subst hl
    rw [h, Bool.or_true]
  · have hne : (compare length l == .eq) = false := by simpa using hl
    rw [hne, Bool.false_or]

theorem start?_insert (s : Spans α) (length : Int) (span : Option (OpenSpan α)) (l : Int) :
    (⟨s.byLength.insert length span⟩ : Spans α).start? l =
      if length = l then span.map OpenSpan.start else s.start? l := by
  unfold start?
  rw [Std.ExtTreeMap.getElem?_insert]
  by_cases hl : length = l
  · simp [hl]
  · simp [hl]

/-- what reading the listed spans makes of spans, and of the lengths that were read -/
structure TakesUp (state state' : Spans α × Std.ExtTreeSet Int compare)
    (listed : List (Int × Option Int)) : Prop where
  hasLength : ∀ length, state'.1.hasLength length = state.1.hasLength length
  seen : ∀ length, state'.2.contains length = true ↔
    state.2.contains length = true ∨ ∃ start, (length, start) ∈ listed
  /-- a span is of a length that was not read before, and has the start that is listed -/
  taken : ∀ length start, (length, start) ∈ listed → state.1.hasLength length = true ∧
    state.2.contains length = false ∧ state'.1.start? length = start
  other : ∀ length, (∀ start, (length, start) ∉ listed) →
    state'.1.start? length = state.1.start? length

theorem takesUp_nil (state : Spans α × Std.ExtTreeSet Int compare) : TakesUp state state [] where
  hasLength _ := rfl
  seen _ := by simp
  taken _ _ h := (List.not_mem_nil h).elim
  other _ _ := rfl

theorem TakesUp.cons {s : Spans α} {seen : Std.ExtTreeSet Int compare} {length : Int}
    {span : Option (OpenSpan α)} {state' : Spans α × Std.ExtTreeSet Int compare}
    {listed : List (Int × Option Int)} (hhas : s.hasLength length = true)
    (hnew : seen.contains length = false)
    (h : TakesUp (⟨s.byLength.insert length span⟩, seen.insert length) state' listed) :
    TakesUp (s, seen) state' ((length, span.map OpenSpan.start) :: listed) := by
  have hseen (l : Int) : (seen.insert length).contains l = true ↔
      length = l ∨ seen.contains l = true := by
    rw [Std.ExtTreeSet.contains_insert, Bool.or_eq_true, beq_iff_eq,
      Std.LawfulEqOrd.compare_eq_iff_eq]
  -- a length is read once only, so the rest does not touch the span that was read first
  have hrest : ∀ start, (length, start) ∉ listed := fun start hmem => by
    have hfalse := (h.taken length start hmem).2.1
    rw [(hseen length).mpr (.inl rfl)] at hfalse
    cases hfalse
  refine ⟨fun l => ?_, fun l => ?_, fun l start hl => ?_, fun l hl => ?_⟩
  · rw [h.hasLength, hasLength_insert hhas]
  · rw [h.seen, hseen]
    constructor
    · rintro ((rfl | hl) | ⟨start, hl⟩)
      · exact .inr ⟨_, List.mem_cons_self⟩
      · exact .inl hl
      · exact .inr ⟨start, List.mem_cons_of_mem _ hl⟩
    · rintro (hl | ⟨start, hl⟩)
      · exact .inl (.inr hl)
      · rcases List.mem_cons.mp hl with heq | hl
        · exact .inl (.inl (Prod.mk.inj heq).1.symm)
        · exact .inr ⟨start, hl⟩
  · rcases List.mem_cons.mp hl with heq | hl
    · obtain ⟨rfl, rfl⟩ := Prod.mk.inj heq
      refine ⟨hhas, hnew, ?_⟩
      rw [h.other l hrest, start?_insert, if_pos rfl]
    · obtain ⟨hhas', hnew', hstart⟩ := h.taken l start hl
      refine ⟨hasLength_insert hhas span l ▸ hhas', ?_, hstart⟩
      by_contra hold
      rw [(hseen l).mpr (.inr (Bool.eq_true_of_not_eq_false hold))] at hnew'
      cases hnew'
  · have hne : length ≠ l := by
      rintro rfl
      exact hl _ List.mem_cons_self
    rw [h.other l fun start hmem => hl start (List.mem_cons_of_mem _ hmem), start?_insert,
      if_neg hne]

theorem takesUp_of_readSpans {state state' : Spans α × Std.ExtTreeSet Int compare}
    (h : Yields (nodes.foldlM readSpan state) state') : TakesUp state state' (outline nodes) := by
  have hreads := reads_of_yields h
  clear h
  induction hreads with
  | nil state => exact takesUp_nil state
  | @cons state state₁ state' n rest first tail ih =>
    obtain ⟨s, seen⟩ := state
    obtain ⟨s₁, seen₁⟩ := state₁
    obtain ⟨length, span, hlength, hhas, hnew, hstart, -, rfl, rfl⟩ := readSpan_spec first
    have houtline : outline (n :: rest) = (length, span.map OpenSpan.start) :: outline rest := by
      unfold outline
      rw [List.filterMap_cons, hlength, hstart]
      rfl
    rw [houtline]
    exact ih.cons hhas hnew

/-- spans are read one by one, and each configured length has to be among them -/
theorem readSpans_of_ofNodes {lengths : List Int} {s : Spans α}
    (h : Yields (ofNodes lengths nodes) s) :
    ∃ seen, Yields (nodes.foldlM readSpan (new lengths, ∅)) (s, seen) ∧
      ∀ length, s.hasLength length = true → seen.contains length = true := by
  obtain ⟨⟨s', seen⟩, hstate, h⟩ := h.exists_of_bind
  simp only at h
  split at h
  · exact (not_yields_throw_bind _ _ _ h).elim
  next hall =>
    obtain rfl : s' = s := h.eq_of_pure
    refine ⟨seen, hstate, fun length hlength => ?_⟩
    by_contra hno
    refine hall (List.any_eq_true.mpr ⟨length, ?_, ?_⟩)
    · unfold Spans.lengths
      rw [Std.ExtTreeMap.mem_keys, Std.ExtTreeMap.mem_iff_contains]
      exact hlength
    · rw [Bool.eq_false_iff.mpr hno]
      rfl

/-- spans that have been read are of the configured lengths, with the starts that are listed -/
theorem outline_of_ofNodes {lengths : List Int} {s : Spans α}
    (h : Yields (ofNodes lengths nodes) s) :
    (∀ length, s.hasLength length = true ↔ length ∈ lengths) ∧
      ∀ length start, (length, start) ∈ outline nodes ↔
        length ∈ lengths ∧ s.start? length = start := by
  obtain ⟨seen, hread, hall⟩ := readSpans_of_ofNodes h
  have htakes := takesUp_of_readSpans hread
  have hhas : ∀ length, s.hasLength length = true ↔ length ∈ lengths := fun length => by
    rw [htakes.hasLength, Window.hasLength_new]
  refine ⟨hhas, fun length start => ⟨fun hmem => ?_, fun ⟨hlength, hstart⟩ => ?_⟩⟩
  · obtain ⟨hin, -, hstart⟩ := htakes.taken length start hmem
    exact ⟨(Window.hasLength_new lengths length).mp hin, hstart⟩
  · rcases (htakes.seen length).mp (hall length ((hhas length).mpr hlength)) with hempty | hlisted
    · simp at hempty
    · obtain ⟨start', hmem⟩ := hlisted
      rw [← hstart, (htakes.taken length start' hmem).2.2]
      exact hmem

end Spans

/-! ## rings -/

namespace Ring
variable {α : Type} [PairData α] {n : Node} {nodes : List Node} {latency : Nat} {length : Int}

/-- what reading keeps of a ring -/
theorem invariant_of_ofNodes {P : Ring α → Prop} {r : Ring α}
    (h : Yields (ofNodes latency length nodes) r) (hnew : ∀ t, P (new latency length t))
    (hbucket : ∀ ring, P ring → ∀ n ∈ nodes, ∀ first rest item, n.held = first :: rest →
      Yields (restore rest) item → ∀ time, P (ring.modify time fun _ => item)) : P r := by
  obtain ⟨state, hstate, h⟩ := h.exists_of_bind
  have hall := (reads_of_yields hstate).invariant
    (P := fun state => ∀ ring, state = some ring → P ring) (fun ring hring => by cases hring)
    fun state n hn state' hP hstep ring hring => ?_
  · exact hall r (of_required h.eq_ok)
  · subst hring
    rcases readNode_cases hstep with ⟨-, t, -, heq⟩ | ⟨-, -, old, ring', hold, hread, heq⟩
    · obtain rfl := Option.some.inj heq
      exact hnew t
    · obtain rfl := Option.some.inj heq
      obtain ⟨first, rest, time, item, hheld, -, -, -, hitem, rfl⟩ := readBucket_spec hread
      exact hbucket old (hP old hold) n hn first rest item hheld hitem time

/-- a ring that has been read ends at the bucket of the start that is written last -/
theorem covers_of_ofNodes (hpos : 0 < length) {r : Ring α}
    (h : Yields (ofNodes latency length nodes) r) :
    ∃ t, lastTime? .latestStart nodes = some t ∧ r.Covers length latency (bucketAt t length) := by
  have hcovers : r.Covers length latency r.newest :=
    invariant_of_ofNodes (P := fun r => r.Covers length latency r.newest) h
      (fun t => Ring.Covers.new hpos t) fun ring hring _ _ _ _ _ _ _ time => by
        rw [newest_modify]
        exact hring.modify time _
  obtain ⟨state, hstate, h⟩ := h.exists_of_bind
  obtain rfl := of_required h.eq_ok
  let newest? : Option (Ring α) → Option Int := Option.map newest
  have hnewest : newest? (some r) = (last? .latestStart nodes).bind fun n =>
      (n.time .latestStart).toOption.map fun t => bucketAt t length := by
    have hnone : newest? none = none := rfl
    refine (reads_of_yields hstate).eq_last hnone
      (fun s n s' hstep hn => ?_) fun s n s' hstep hn => ?_
    · rcases readNode_cases hstep with ⟨-, t, ht, rfl⟩ | ⟨hname, -⟩
      · rw [ht]
        rfl
      · exact absurd (hn.symm.trans hname) (by decide)
    · rcases readNode_cases hstep with ⟨hname, -⟩ | ⟨-, -, old, ring', rfl, hread, rfl⟩
      · exact (hn hname).elim
      · obtain ⟨_, _, time, item, -, -, -, -, -, rfl⟩ := readBucket_spec hread
        exact congrArg some (newest_modify old time _)
  have hlast : some r.newest = (lastTime? .latestStart nodes).map fun t => bucketAt t length := by
    refine hnewest.trans ?_
    unfold lastTime?
    cases last? Tag.latestStart nodes <;> rfl
  obtain ⟨t, ht, hbucket⟩ := Option.map_eq_some_iff.mp hlast.symm
  exact ⟨t, ht, hbucket ▸ hcovers⟩

end Ring

/-! ## windows -/

/-- what a document says of a window: where its newest bucket begins, and its spans with the starts
of the open ones -/
structure WindowOutline where
  latest? : Option Int
  spans : List (Int × Option Int)
deriving DecidableEq

/-- a frame that is as an outline says -/
structure WindowOutline.Draws (o : WindowOutline) (c : Config) (f : Frame) : Prop where
  length_eq : f.length = c.bucketSeconds
  capacity_eq : f.capacity = c.latencyBuckets + 1
  oldest_eq : f.oldest = f.newest - c.latencyBuckets * c.bucketSeconds
  newest_eq : o.latest?.map (fun t => bucketAt t c.bucketSeconds) = some f.newest
  mem_spans : ∀ length start, (length, start) ∈ o.spans ↔
    length ∈ c.spanSeconds ∧ f.spanStart? length = start
  mem_of_start : ∀ length start, f.spanStart? length = some start → length ∈ c.spanSeconds

namespace WindowOutline.Draws
variable {o o' : WindowOutline} {c : Config} {f f' : Frame}

theorem frame_eq (h : o.Draws c f) : f = ⟨c.bucketSeconds, c.latencyBuckets + 1,
    f.newest - c.latencyBuckets * c.bucketSeconds, f.newest, f.spanStart?⟩ := by
  rw [← h.oldest_eq, ← h.length_eq, ← h.capacity_eq]

theorem aligned (h : o.Draws c f) : c.bucketSeconds ∣ f.newest := by
  obtain ⟨t, -, ht⟩ := Option.map_eq_some_iff.mp h.newest_eq
  rw [← ht]
  exact dvd_bucketAt t c.bucketSeconds

/-- a window ends at a bucket just if the time that is written for its end lies in that bucket -/
theorem newest_iff (h : o.Draws c f) {start : Int} :
    f.newest = start ↔ ∀ t ∈ o.latest?, bucketAt t c.bucketSeconds = start := by
  obtain ⟨t, ht, hnewest⟩ := Option.map_eq_some_iff.mp h.newest_eq
  rw [← hnewest]
  refine ⟨fun heq u hu => ?_, fun hall => hall t ht⟩
  obtain rfl := Option.some.inj (ht.symm.trans hu)
  exact heq

/-- the same spans are open just if the same spans are listed -/
theorem spanStart?_iff (h : o.Draws c f) (h' : o'.Draws c f') :
    f'.spanStart? = f.spanStart? ↔ ∀ e, e ∈ o'.spans ↔ e ∈ o.spans := by
  constructor
  · intro heq ⟨length, start⟩
    rw [h.mem_spans, h'.mem_spans, heq]
  · intro hlisted
    funext length
    by_cases hmem : length ∈ c.spanSeconds
    · have hopen := (h'.mem_spans length _).mpr ⟨hmem, rfl⟩
      exact ((h.mem_spans length _).mp ((hlisted _).mp hopen)).2.symm
    · -- a length that is not configured has no span in either window
      have hnone {o : WindowOutline} {f : Frame} (h : o.Draws c f) :
          f.spanStart? length = none := by
        rw [Option.eq_none_iff_forall_ne_some]
        exact fun start hstart => hmem (h.mem_of_start length start hstart)
      rw [hnone h, hnone h']

end WindowOutline.Draws

namespace Window
variable {α : Type} [PairData α] {w : Window α} {c : Config} {nodes : List Node}

def outline (nodes : List Node) : WindowOutline :=
  ⟨lastTime? .latestStart ((lastLevel? .bucketQueue nodes).getD []),
    Spans.outline ((lastLevel? .multiBucket nodes).getD [])⟩

/-- a window that has been read fits the configuration and is as its outline says -/
theorem outline_of_ofLevels (hpos : 0 < c.bucketSeconds) {l : Levels}
    (hring : l.ring = lastLevel? .bucketQueue nodes)
    (hspans : l.spans = lastLevel? .multiBucket nodes) (h : Yields (ofLevels c l) w) :
    w.Fits c w.ring.newest ∧ (outline nodes).Draws c w.frame := by
  obtain ⟨ringNodes, hringNodes, h⟩ := h.exists_of_bind
  obtain ⟨ring, hreadRing, h⟩ := h.exists_of_bind
  obtain ⟨spanNodes, hspanNodes, h⟩ := h.exists_of_bind
  obtain ⟨spans, hreadSpans, h⟩ := h.exists_of_bind
  obtain rfl := h.eq_of_pure
  have houtline : outline nodes = ⟨lastTime? .latestStart ringNodes, Spans.outline spanNodes⟩ := by
    unfold outline
    rw [← hring, ← hspans, of_required hringNodes.eq_ok, of_required hspanNodes.eq_ok]
    rfl
  obtain ⟨t, ht, hcovers⟩ := Ring.covers_of_ofNodes hpos hreadRing
  obtain ⟨hlengths, hlisted⟩ := Spans.outline_of_ofNodes hreadSpans
  have hfits : (⟨ring, spans⟩ : Window α).Fits c ring.newest :=
    ⟨hcovers.newest_eq ▸ hcovers, hlengths⟩
  refine ⟨hfits, hcovers.length_eq, hcovers.capacity_eq, hfits.ring.oldest_eq, ?_, ?_, ?_⟩
  · rw [houtline, ht]
    exact congrArg some hcovers.newest_eq.symm
  · rw [houtline]
    exact hlisted
  · exact fun length start => hfits.mem_of_start?

end Window

/-! ## documents -/

/-- what a document says of the clock and of both windows -/
structure Outline where
  start? : Option Int
  counts : WindowOutline
  series : WindowOutline
deriving DecidableEq

def Snapshot.outline (nodes : List Node) : Outline :=
  ⟨lastTime? .bucketStart nodes, Window.outline nodes,
    Window.outline ((lastLevel? .series nodes).getD [])⟩

/-- the outline of the one level of a document -/
def Document.outline (d : Document) : Outline := Snapshot.outline (d.nodes.flatMap held)

/-- the clock and both windows say the same -/
structure Outline.InStep (length : Int) (o : Outline) : Prop where
  counts : ∀ s ∈ o.start?, ∀ t ∈ o.counts.latest?, bucketAt t length = s
  series : ∀ s ∈ o.start?, ∀ t ∈ o.series.latest?, bucketAt t length = s
  spans : ∀ e, e ∈ o.series.spans ↔ e ∈ o.counts.spans
  spans_aligned : ∀ e ∈ o.counts.spans, ∀ s ∈ e.2, e.1 ∣ s

instance (length : Int) (o : Outline) : Decidable (o.InStep length) :=
  decidable_of_iff ((∀ s ∈ o.start?, ∀ t ∈ o.counts.latest?, bucketAt t length = s) ∧
    (∀ s ∈ o.start?, ∀ t ∈ o.series.latest?, bucketAt t length = s) ∧
    ((∀ e ∈ o.series.spans, e ∈ o.counts.spans) ∧ ∀ e ∈ o.counts.spans, e ∈ o.series.spans) ∧
    ∀ e ∈ o.counts.spans, ∀ s ∈ e.2, e.1 ∣ s)
    ⟨fun ⟨counts, series, ⟨h, h'⟩, aligned⟩ => ⟨counts, series, fun e => ⟨h e, h' e⟩, aligned⟩,
      fun ⟨counts, series, spans, aligned⟩ =>
        ⟨counts, series, ⟨fun e => (spans e).mp, fun e => (spans e).mpr⟩, aligned⟩⟩

theorem Series.outline_of_ofNodes (kind : SeriesKind) {c : Config} (hpos : 0 < c.bucketSeconds)
    {nodes : List Node} {s : Series} (h : Yields (Series.ofNodes kind c nodes) s) :
    (Window.outline nodes).Draws c s.frame := by
  cases kind with
  | eventRate =>
    obtain ⟨occurrences, hoccurrences, hs⟩ := h.exists_of_bind
    obtain ⟨levels, hlevels, hwindow⟩ := hoccurrences.exists_of_bind
    obtain ⟨window, hread, heq⟩ := hwindow.exists_of_bind
    obtain rfl := hs.eq_of_pure
    obtain rfl := heq.eq_of_pure
    have hlast {t : Tag} (ht : t ∈ kept) (hnone : Occurrences.slots.get t ⟨none, none⟩ = none) :=
      Occurrences.slots.get_eq_last ht hnone hlevels.eq_ok
    exact (Window.outline_of_ofLevels hpos (hlast (t := .bucketQueue) (by decide) rfl)
      (hlast (t := .multiBucket) (by decide) rfl) hread).2
  | metric =>
    obtain ⟨measured, hmeasured, hs⟩ := h.exists_of_bind
    obtain ⟨parts, hparts, hwindow⟩ := hmeasured.exists_of_bind
    obtain ⟨window, hread, heq⟩ := hwindow.exists_of_bind
    obtain rfl := hs.eq_of_pure
    obtain rfl := heq.eq_of_pure
    have hlast {t : Tag} (ht : t ∈ kept)
        (hnone : Measured.slots.get t ⟨⟨none, none⟩, .empty⟩ = none) :=
      Measured.slots.get_eq_last ht hnone hparts.eq_ok
    exact (Window.outline_of_ofLevels hpos (hlast (t := .bucketQueue) (by decide) rfl)
      (hlast (t := .multiBucket) (by decide) rfl) hread).2

theorem Snapshot.start_of_readParts {length : Int} {nodes : List Node} {p : Parts}
    (h : readParts length nodes = .ok p) : p.start = lastTime? .bucketStart nodes := by
  refine (reads_of_ok h).eq_last rfl (fun p n p' h hn => ?_) fun p n p' h hn => ?_
  · obtain ⟨t, ht, h⟩ := Except.exists_of_bind h
    obtain rfl : t = .bucketStart := Tag.name_injective ((name_of_tag? ht).symm.trans hn)
    obtain ⟨time, htime, h⟩ := Except.exists_of_bind h
    obtain rfl := Except.ok.inj h
    rw [htime]
    rfl
  · obtain ⟨t, ht, h⟩ := Except.exists_of_bind h
    have hne : t ≠ .bucketStart := fun e => hn (e ▸ name_of_tag? ht)
    split at h
    case h_2 => exact (hne rfl).elim
    case h_7 => cases h
    case h_1 =>
      obtain ⟨found, -, h⟩ := Except.exists_of_bind h
      split at h
      · obtain rfl := Except.ok.inj h
        rfl
      · cases h
    all_goals
      obtain ⟨x, -, h⟩ := Except.exists_of_bind h
      obtain rfl := Except.ok.inj h
      rfl

/-- what a snapshot that has been read takes from which part of its document -/
theorem Snapshot.ofDocument_spec {kind : SeriesKind} {c : Config} {d : Document} {s : Snapshot}
    (h : Yields (ofDocument kind c d) s) : ∃ nodes inner levels,
      d.nodes = [kind.tag.level nodes] ∧ lastTime? .bucketStart nodes = some s.start ∧
      levels.ring = lastLevel? .bucketQueue nodes ∧
      levels.spans = lastLevel? .multiBucket nodes ∧
      Yields (Window.ofLevels c levels) s.counts ∧
      lastLevel? .series nodes = some inner ∧ Yields (Series.ofNodes kind c inner) s.series := by
  obtain ⟨nodes, hnodes, h⟩ := h.exists_of_bind
  obtain ⟨p, hp, h⟩ := h.exists_of_bind
  obtain ⟨start, hstart, h⟩ := h.exists_of_bind
  obtain ⟨counts, hcounts, h⟩ := h.exists_of_bind
  obtain ⟨inner, hinner, h⟩ := h.exists_of_bind
  obtain ⟨series, hseries, h⟩ := h.exists_of_bind
  obtain rfl := h.eq_of_pure
  have hlast {t : Tag} (ht : t ∈ kept)
      (hnone : (slots c.bucketSeconds).get t ⟨none, none, ⟨none, none⟩, none⟩ = none) :=
    (slots c.bucketSeconds).get_eq_last ht hnone hp.eq_ok
  refine ⟨nodes, inner, p.levels, nodes_of_body hnodes.eq_ok, ?_, ?_, ?_, hcounts, ?_, hseries⟩
  · exact (start_of_readParts hp.eq_ok).symm.trans (of_required hstart.eq_ok)
  · exact hlast (t := .bucketQueue) (by decide) rfl
  · exact hlast (t := .multiBucket) (by decide) rfl
  · exact (hlast (t := .series) (by decide) rfl).symm.trans (of_required hinner.eq_ok)

namespace Gatherer
variable {g : Gatherer} {kind : SeriesKind} {c : Config} {d : Document}

/-- a gatherer is restored under a valid configuration only, and from a snapshot that was read -/
theorem exists_of_restore (hr : restore kind c d = .ok g) :
    c.fault? kind = none ∧ ∃ s pool, Yields (Snapshot.ofDocument kind c d) s ∧
      g = ofSnapshot c s pool := by
  unfold restore at hr
  cases hvalid : c.fault? kind with
  | some e =>
    rw [hvalid] at hr
    cases hr
  | none =>
    rw [hvalid] at hr
    cases hread : (Snapshot.ofDocument kind c d).startingWith .empty with
    | mk result pool =>
      simp only [hread] at hr
      cases result with
      | error e => cases hr
      | ok s => exact ⟨rfl, s, pool, ⟨_, _, hread⟩, (Except.ok.inj hr).symm⟩

/-- a gatherer is restored with the clock and the windows of its document -/
theorem outline_of_restore (hs : c.bucketLength.secs.toNat < 2 ^ 63)
    (hr : restore kind c d = .ok g) :
    g.config = c ∧ d.outline.start? = some g.start ∧ g.counts.Fits c g.counts.ring.newest ∧
      d.outline.counts.Draws c g.counts.frame ∧ d.outline.series.Draws c g.series.frame := by
  obtain ⟨hvalid, s, pool, hread, rfl⟩ := exists_of_restore hr
  have hpos := Config.bucketSeconds_pos hvalid hs
  obtain ⟨nodes, inner, levels, hd, hstart, hring, hspans, hcounts, hinner, hseries⟩ :=
    Snapshot.ofDocument_spec hread
  have houtline : d.outline = Snapshot.outline nodes := by
    unfold Document.outline
    rw [hd]
    exact congrArg Snapshot.outline (List.append_nil nodes)
  obtain ⟨hfits, hdraws⟩ := Window.outline_of_ofLevels hpos hring hspans hcounts
  rw [houtline]
  refine ⟨rfl, hstart, hfits, hdraws, ?_⟩
  show (Window.outline ((lastLevel? .series nodes).getD [])).Draws c s.series.frame
  rw [hinner]
  exact Series.outline_of_ofNodes kind hpos hseries

/-- the clock and the windows of a restored gatherer are in step just if its document says so -/
theorem inStep_iff_outline (hs : c.bucketLength.secs.toNat < 2 ^ 63)
    (hr : restore kind c d = .ok g) : g.InStep ↔ d.outline.InStep c.bucketSeconds := by
  obtain ⟨hconfig, hstart, -, hcounts, hseries⟩ := outline_of_restore hs hr
  have hlength : g.length = c.bucketSeconds := congrArg Config.bucketSeconds hconfig
  have hlatency : g.latency = c.latencyBuckets := congrArg Config.latencyBuckets hconfig
  constructor
  · intro h
    refine ⟨fun s hs' => ?_, fun s hs' => ?_, ?_, fun ⟨length, span⟩ hmem start hspan => ?_⟩
    · obtain rfl := Option.some.inj (hstart.symm.trans hs')
      exact hcounts.newest_iff.mp h.newest_eq
    · obtain rfl := Option.some.inj (hstart.symm.trans hs')
      refine hseries.newest_iff.mp ?_
      rw [h.series_eq, h.newest_eq]
    · exact (hcounts.spanStart?_iff hseries).mp (congrArg Frame.spanStart? h.series_eq)
    · obtain ⟨-, hopen⟩ := (hcounts.mem_spans length span).mp hmem
      exact (h.spans length start (hopen.trans hspan)).2
  · intro h
    have hnewest : g.counts.frame.newest = g.start := hcounts.newest_iff.mpr (h.counts _ hstart)
    have hnewest' : g.series.frame.newest = g.start := hseries.newest_iff.mpr (h.series _ hstart)
    have hspans := (hcounts.spanStart?_iff hseries).mpr h.spans
    refine ⟨?_, hcounts.length_eq.trans hlength.symm, ?_, ?_, hnewest, ?_,
      fun length start hopen => ⟨?_, ?_⟩⟩
    · rw [hlength, ← hnewest]
      exact hcounts.aligned
    · rw [hcounts.capacity_eq, hlatency]
    · rw [hcounts.oldest_eq, hnewest, ← hlength, ← hlatency]
      rfl
    · rw [hseries.frame_eq, hcounts.frame_eq, hnewest, hnewest', hspans]
    · rw [hconfig]
      exact hcounts.mem_of_start length start hopen
    · have hmem := hcounts.mem_of_start length start hopen
      exact h.spans_aligned _ ((hcounts.mem_spans length _).mpr ⟨hmem, hopen⟩) start rfl

end Gatherer

end EventBuckets
