import EventBuckets.Gatherer.Queries
import EventBuckets.Proofs.OpenSpans

/-!
# Spans and gatherers of longer buckets

What a span says of the buckets that were passed to it is what one long bucket says that has taken
their records itself.

* `Event.recordIn?`    the record of an event, whatever gatherer takes it;
* `history_eq`         without limits, gatherers that find no event late have the same history;
* `readouts_congr`     features depend on counts and texts alone;
* `readouts_span_eq`   the features of a span are those of a bucket as long.
-/

set_option linter.unusedSectionVars false

namespace EventBuckets

/-! ## intervals -/

namespace Window
variable {α : Type} [PairData α] (w : Window α) (t : Int)

theorem get?_length : w.get? t w.ring.length = w.ring.get? (bucketAt t w.ring.length) := by
  unfold Window.get?
  rw [if_pos rfl, Ring.get?_bucketAt]

theorem get?_of_ne {length : Int} (hne : length ≠ w.ring.length) :
    w.get? t length = w.spans.get? length (bucketAt t length) := by
  unfold Window.get? Spans.get?
  rw [if_neg hne, bucketAt_bucketAt]

end Window

/-! ## histories -/

/-- the record of an event, whatever gatherer takes it -/
def Event.recordIn? (d : Directory) (e : Event) : Option Recorded :=
  match e.time, e.pair? with
  | some t, some p => if e.isUsable d p then e.record? t p else none
  | _, _ => none

def Op.event? : Op → Option (Directory × Event)
  | .add d e => some (d, e)
  | _ => none

def Config.Unlimited (c : Config) : Prop := c.maxPeople = none ∧ c.maxAttributes = none

namespace Gatherer
variable {g h : Gatherer} {kind : SeriesKind} {c c' : Config} {d : Directory} {e : Event}
  {ops ops' : List Op} {span start : Int}

/-- no event of a run is found late -/
def NeverLate (g : Gatherer) (ops : List Op) : Prop :=
  ∀ y ∈ g.answers ops, y ≠ .intake (.ok false)

/-- without limits an event that is usable and not late is taken -/
theorem fate_eq_taken (hl : g.config.Unlimited) {t : Int} {p : Pair} (ht : g.oldest ≤ t)
    (hp : e.pair? = some p) (hu : e.isUsable d p = true) : g.fate d e t = .ok (.taken p) := by
  have hnone : g.config.limitFault? p = none := by
    unfold Config.limitFault?
    rw [hl.1, hl.2]
    rfl
  rw [fate_eq_of_usable ht hp hu, hnone]

theorem recorded?_eq_recordIn? (hl : g.config.Unlimited) (hlate : (g.add d e).1 ≠ .ok false) :
    g.recorded? d e = e.recordIn? d := by
  have hadds := adds g d e
  unfold recorded? Event.recordIn?
  generalize g.add d e = r at hadds hlate
  cases hadds with
  | untimed ht => simp [ht]
  | @refused t err ht hf =>
    have hin : g.oldest ≤ t := by
      have hspec := fate_spec g d e t
      rw [hf] at hspec
      exact hspec
    rw [ht]
    cases hp : e.pair? with
    | none => rfl
    | some p =>
      have hu : ¬e.isUsable d p = true := by
        intro hu
        rw [fate_eq_taken hl hin hp hu] at hf
        cases hf
      exact (if_neg hu).symm
  | late => exact absurd rfl hlate
  | ignored ht _ hp hu => simp [ht, hp, hu]
  | noted ht _ hp => simp [ht, hp]
  | taken ht _ _ hp hu => simp [ht, hp, hu]

/-- without limits and late events, the history is that of the events alone -/
theorem history_eq (hs : g.Sound kind c) (hl : c.Unlimited) (hlate : g.NeverLate ops) :
    g.history ops = (ops.filterMap Op.event?).filterMap fun y => y.2.recordIn? y.1 := by
  induction ops generalizing g with
  | nil => rfl
  | cons op ops ih =>
    have hrest := ih (hs.perform op) fun y hy => hlate y (List.mem_cons_of_mem _ hy)
    unfold history
    rw [hrest]
    cases op with
    | add d e =>
      have hanswer : (g.add d e).1 ≠ .ok false := by
        intro heq
        exact hlate _ List.mem_cons_self (congrArg Answer.intake heq)
      show (g.recorded? d e).toList ++ _ = ((d, e) :: ops.filterMap Op.event?).filterMap _
      rw [recorded?_eq_recordIn? (hs.config_eq ▸ hl) hanswer, List.filterMap_cons]
      cases e.recordIn? d with
      | none => rfl
      | some x => rfl
    | _ => rfl

/-! ## features -/

/-- the features of two intervals with the same counts and the same texts are the same -/
theorem readouts_congr {o o' : Occurrences} (ho : g.series = .occurrences o)
    (ho' : h.series = .occurrences o') (hf : g.features = h.features) {t length : Int}
    {a b : Aggregates} (ha : g.counts.get? t length = some a)
    (hb : h.counts.get? t length = some b) (hcounts : a.counts = b.counts)
    (htexts : o.window.get? t length = o'.window.get? t length) :
    g.readouts t length = h.readouts t length := by
  have hreadout (f : Feature) :
      g.series.readout? f t length a = h.series.readout? f t length b := by
    rw [ho, ho']
    show o.readout? f t length a = o'.readout? f t length b
    unfold Occurrences.readout? Aggregates.personCounts
    rw [hcounts, htexts]
  unfold readouts
  rw [ha, hb, hf]
  simp only [hreadout]

/-- after any run a retained bucket holds what its records come to, in both windows -/
theorem exists_bucket (hs : g.Sound .eventRate c) (htold : ∀ lo, g.Tells .contents lo [])
    (hops : ∀ op ∈ ops, op.isGathering = true) {t : Int}
    (hin : (g.run ops).counts.ring.contains t = true) :
    (∃ a, (g.run ops).counts.ring.get? t = some a ∧
      a.Counts (recordsAt c.bucketSeconds t (g.history ops))) ∧
    ∃ o d, (g.run ops).series = .occurrences o ∧ o.window.ring.length = c.bucketSeconds ∧
      o.window.ring.get? t = some d ∧
      d.Lists (recordsAt c.bucketSeconds t (g.history ops)) := by
  have hs' := hs.run ops
  have htells (lo : Int) : (g.run ops).Tells .contents lo (g.history ops) := by
    have hrun := (htold lo).run Account.lawful_contents hs hops
    rwa [List.nil_append] at hrun
  obtain ⟨o, ho, window⟩ := hs'.series.exists_occurrences
  have hin' : o.window.ring.contains t = true :=
    window.ring.contains_iff.mpr (hs'.counts.ring.contains_iff.mp hin)
  have hseries (lo : Int) : o.window.ring.Tells lo DistinctTexts.Lists (g.history ops) := by
    have htexts := (htells lo).series
    rw [ho] at htexts
    exact htexts
  obtain ⟨a, ha, hcounts⟩ := (htells _).counts.found t hin le_rfl
  obtain ⟨d, hd, htexts⟩ := (hseries _).found t hin' le_rfl
  rw [hs'.counts.ring.length_eq] at hcounts
  rw [window.ring.length_eq] at htexts
  exact ⟨⟨a, ha, hcounts⟩, o, d, ho, window.ring.length_eq, hd, htexts⟩

/-- the features of a span, the buckets of which were each sampled once after their last record, are
those of a gatherer with buckets as long as the span that has taken in the same events -/
theorem readouts_span_eq {u v : Int} (hg : new .eventRate c u = .ok g)
    (hh : new .eventRate c' v = .ok h)
    (hspan : c'.bucketSeconds ∈ c.spanSeconds)
    (hfeatures : c.featuresFor .eventRate = c'.featuresFor .eventRate)
    (hl : c.Unlimited) (hl' : c'.Unlimited)
    (hops : ∀ op ∈ ops, op.isGathering = true) (hops' : ∀ op ∈ ops', op.isGathering = true)
    (hevents : ops.filterMap Op.event? = ops'.filterMap Op.event?)
    (hlate : g.NeverLate ops) (hlate' : h.NeverLate ops')
    (hstart : c'.bucketSeconds ∣ start) (hc : g.Completes ops c'.bucketSeconds start)
    (hold : (h.run ops').oldest ≤ start) (hnew : start ≤ (h.run ops').start) {t : Int}
    (h₁ : start ≤ t) (h₂ : t < start + c'.bucketSeconds) :
    (g.run ops).readouts t c'.bucketSeconds = (h.run ops').readouts t c'.bucketSeconds := by
  -- a length from `2 ^ 63` on is negative, and then there is no such time
  have hpos : 0 < c'.bucketSeconds := by omega
  have hs := Duration.secs_lt_of_seconds_pos hpos
  obtain ⟨d, hd, hseconds⟩ := List.mem_map.mp hspan
  have hsecs : d.secs = c'.bucketLength.secs := Duration.seconds_inj hseconds
  obtain ⟨hsmall, hdvd⟩ := Config.span_of_valid (valid_of_new hg) hd (hsecs ▸ hs)
  rw [hseconds] at hdvd
  have hgs := sound_new hsmall hg
  have hhs := sound_new hs hh
  have hgs' := hgs.run ops
  have hhs' := hhs.run ops'
  have hbucket : bucketAt t c'.bucketSeconds = start := bucketAt_eq_of_mem hstart h₁ h₂
  have hhistory : g.history ops = h.history ops' := by
    rw [history_eq hgs hl hlate, history_eq hhs hl' hlate', hevents]
  -- the span
  obtain ⟨⟨a, ha, hcounts⟩, texts, htexts, hlists⟩ := hc.exists_span hgs
    (fun _ => tells_new Account.lawful_contents hsmall hg) (spanTells_new hg hspan hstart)
    (hgs.length_eq ▸ hdvd) hpos hstart hops
  -- the long bucket
  have hin : (h.run ops').counts.ring.contains start = true := by
    rw [hhs'.contains_iff, hhs'.length_eq, bucketAt_of_dvd hstart]
    exact ⟨hold, hnew⟩
  obtain ⟨⟨a', ha', hcounts'⟩, o', texts', ho', hlength', htexts', hlists'⟩ :=
    exists_bucket hhs (fun _ => tells_new Account.lawful_contents hs hh) hops' hin
  rw [← hhistory] at hcounts' hlists'
  -- both are asked for with a time of the span
  obtain ⟨o, ho, window⟩ := hgs'.series.exists_occurrences
  have hne : c'.bucketSeconds ≠ c.bucketSeconds := by
    rw [← hgs.length_eq]
    exact hgs.spanSeconds_ne hspan
  have hspanGet {α : Type} [PairData α] (w : Window α) (hw : w.ring.length = c.bucketSeconds) :
      w.get? t c'.bucketSeconds = w.spans.get? c'.bucketSeconds start := by
    rw [w.get?_of_ne t (hw ▸ hne), hbucket]
  have hringGet {α : Type} [PairData α] (w : Window α) (hw : w.ring.length = c'.bucketSeconds) :
      w.get? t c'.bucketSeconds = w.ring.get? start := by
    rw [← hw, w.get?_length t, hw, hbucket]
  have hfeaturesEq : (g.run ops).features = (h.run ops').features := by
    unfold features
    rw [hgs'.config_eq, hhs'.config_eq, hgs'.kind_eq, hhs'.kind_eq]
    exact hfeatures
  rw [ho] at htexts
  refine readouts_congr ho ho' hfeaturesEq (a := a) (b := a') ?_ ?_ (hcounts.counts_eq hcounts') ?_
  · rw [hspanGet _ hgs'.counts.ring.length_eq]
    exact ha
  · rw [hringGet _ hhs'.counts.ring.length_eq]
    exact ha'
  · rw [hspanGet _ window.ring.length_eq, hringGet _ hlength', htexts', ← hlists.eq hlists']
    exact htexts

/-- buckets of two minutes with all features of occurrences -/
def doubleMinutes : Config :=
  { Config.default with
    bucketLength := .ofSecs 120
    features := [.countByPerson, .nonZeroCountByPerson, .uniqueCountByPerson, .countByPair] }

/-- buckets of a minute that may be late, and spans of two minutes -/
def minutes : Config :=
  { doubleMinutes with
    bucketLength := .ofSecs 60, latencyBuckets := 1, multiBucketLengths := [.ofSecs 120] }

/-- a person is at home in both minutes before the epoch, the first of which comes late -/
def atHome : List Op :=
  let d : Directory := ⟨fun _ => .active, fun _ => .active⟩
  [.add d ⟨some (-10), some 7, some 2, [], some 3, some "home", [some "host"], false⟩,
    .add d ⟨some (-100), some 7, some 2, [], some 1, some "home", [], false⟩]

/-- both minutes are sampled after that -/
def atHomeSampled : List Op := atHome ++ [.sample (-120), .sample (-60)]

theorem completes_atHome (hg : new .eventRate minutes (-100) = .ok g) :
    g.Completes atHomeSampled 120 (-120) := by
  have hplaces (before : List Op) (t : Int) (after : List Op)
      (hsplit : atHomeSampled = before ++ Op.sample t :: after) :
      (before = atHome ∧ t = -120 ∧ after = [.sample (-60)]) ∨
        (before = atHome ++ [.sample (-120)] ∧ t = -60 ∧ after = []) := by
    rcases before with _ | ⟨_, _ | ⟨_, _ | ⟨_, _ | ⟨_, _ | ⟨_, before⟩⟩⟩⟩⟩
    all_goals simp [atHomeSampled, atHome] at hsplit
    · obtain ⟨rfl, rfl, rfl, rfl⟩ := hsplit
      exact .inl ⟨rfl, rfl, rfl⟩
    · obtain ⟨rfl, rfl, rfl, rfl, rfl⟩ := hsplit
      exact .inr ⟨rfl, rfl, rfl⟩
  obtain rfl := Except.ok.inj hg
  refine ⟨fun b hb hspan => ?_, fun before t after hsplit _ => ?_,
    fun before t after hsplit _ x hx => ?_, fun t ht => ?_⟩
  · have hb : (60 : Int) ∣ b := hb
    have h₁ : bucketAt b 120 ≤ b := bucketAt_le b (by decide)
    have h₂ : b < bucketAt b 120 + 120 := lt_bucketAfter b (by decide)
    obtain rfl | rfl : b = -120 ∨ b = -60 := by omega
    · decide
    · decide
  · rcases hplaces before t after hsplit with ⟨rfl, rfl, rfl⟩ | ⟨rfl, rfl, rfl⟩
    · decide
    · decide
  · rcases hplaces before t after hsplit with ⟨rfl, rfl, rfl⟩ | ⟨rfl, rfl, rfl⟩
    · cases hx
    · cases hx
  · have ht : t = -120 ∨ t = -60 := by simpa [atHomeSampled, atHome] using ht
    rcases ht with rfl | rfl
    · decide
    · decide

/-- a text that comes in both minutes is one text in the span -/
theorem readouts_span_before_epoch :
    ∃ g h, new .eventRate minutes (-100) = .ok g ∧ new .eventRate doubleMinutes (-100) = .ok h ∧
      (g.run atHomeSampled).readouts (-70) 120 = (h.run atHome).readouts (-70) 120 ∧
      (h.run atHome).readouts (-70) 120 =
        [(.countByPerson, .personCounts [(7, 4)]), (.nonZeroCountByPerson, .personCounts [(7, 1)]),
          (.uniqueCountByPerson, .personCounts [(7, 1)]),
          (.countByPair, .pairCounts [(⟨7, 2⟩, 4)])] := by
  obtain ⟨g, hg⟩ : ∃ g, new .eventRate minutes (-100) = .ok g := ⟨_, rfl⟩
  obtain ⟨h, hh⟩ : ∃ h, new .eventRate doubleMinutes (-100) = .ok h := ⟨_, rfl⟩
  have hlate : g.NeverLate atHomeSampled := by
    obtain rfl := Except.ok.inj hg
    rintro y (_ | ⟨_, _ | ⟨_, _ | ⟨_, _ | ⟨_, ⟨⟩⟩⟩⟩⟩)
    all_goals nofun
  have hlate' : h.NeverLate atHome := by
    obtain rfl := Except.ok.inj hh
    rintro y (_ | ⟨_, _ | ⟨_, ⟨⟩⟩⟩)
    all_goals nofun
  have hkept : (h.run atHome).oldest ≤ -120 ∧ -120 ≤ (h.run atHome).start := by
    obtain rfl := Except.ok.inj hh
    decide
  have hevents : atHomeSampled.filterMap Op.event? = atHome.filterMap Op.event? := rfl
  have hspan : (120 : Int) = doubleMinutes.bucketSeconds := by decide
  refine ⟨g, h, hg, hh, ?_, ?_⟩
  · rw [hspan]
    exact readouts_span_eq hg hh (by decide) rfl ⟨rfl, rfl⟩ ⟨rfl, rfl⟩ (by decide)
      (by decide) hevents hlate hlate' (by decide) (completes_atHome hg) hkept.1 hkept.2
      (by decide) (by decide)
  · obtain rfl := Except.ok.inj hh
    rfl

end Gatherer

end EventBuckets
