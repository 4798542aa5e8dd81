import EventBuckets.Proofs.Order
import EventBuckets.Proofs.Jumps

/-!
# Taking in an event is all or nothing

Several checks stand between an event and its bucket.  Each of them decides the answer by itself, and
nothing is changed before the last of them is passed.

* `Refuses`, `Ignores`       why an event in time that has both ids fails, or is let pass without a
                             trace;
* `Gatherer.fate_eq_error`, `Gatherer.fate_eq_ignored`, `Gatherer.refuses_or_fate_eq_taken`
                             the fate of such an event, from the reason;
* `Gatherer.observe_eq_tick` noting a time is a tick, but for the earliest time;
* `Window.SameBut`, `Series.SameBut`, `Gatherer.SameBut`
                             the same but for the contents of a single bucket;
* `add_is_atomic`            the answer to each event, and what is changed by it.
-/

set_option linter.unusedSectionVars false

namespace EventBuckets

/-! ## reasons -/

/-- why an event in time that has both ids is answered with an error -/
inductive Refuses (c : Config) (d : Directory) (e : Event) (p : Pair) : IntakeError → Prop
  | unknownPerson (h : d.person p.person = .unknown) : Refuses c d e p (.unknownPerson p.person)
  | unknownAttr (hperson : d.person p.person = .active) (h : d.attr p.attr = .unknown) :
      Refuses c d e p (.unknownAttribute p.attr)
  | tooManyPeople {limit : Nat} (husable : e.isUsable d p = true) (hlimit : c.maxPeople = some limit)
      (h : limit ≤ p.person) : Refuses c d e p (.capacityExhausted .people p.person limit)
  | tooManyAttrs {limit : Nat} (husable : e.isUsable d p = true)
      (hpeople : ∀ l, c.maxPeople = some l → p.person < l) (hlimit : c.maxAttributes = some limit)
      (h : limit ≤ p.attr) : Refuses c d e p (.capacityExhausted .attributes p.attr limit)

/-- why an event in time that has both ids is let pass without a trace -/
inductive Ignores (d : Directory) (e : Event) (p : Pair) : Prop
  | recycledPerson (h : d.person p.person = .recycled)
  | recycledAttr (hperson : d.person p.person = .active) (h : d.attr p.attr = .recycled)
  | notFinite (hactive : d.isActive p = true) (h : e.values.all Binary64.isFinite = false)

namespace Config
variable {c : Config} {p : Pair}

theorem limitFault?_people {limit : Nat} (hlimit : c.maxPeople = some limit)
    (h : limit ≤ p.person) :
    c.limitFault? p = some (.capacityExhausted .people p.person limit) := by
  simp [limitFault?, hlimit, Option.filter, h]

theorem limitFault?_of_people_lt (h : ∀ l, c.maxPeople = some l → p.person < l) :
    c.limitFault? p = (c.maxAttributes.filter fun limit => limit ≤ p.attr).map fun limit =>
      .capacityExhausted .attributes p.attr limit := by
  have hnone : (c.maxPeople.filter fun limit => limit ≤ p.person) = none := by
    cases hl : c.maxPeople with
    | none => rfl
    | some l => simpa [Option.filter] using h l hl
  unfold limitFault?
  rw [hnone]

end Config

namespace Gatherer

variable {g : Gatherer} {d : Directory} {e : Event} {t : Int} {p : Pair}

theorem fate_eq_clockOnly (ht : g.oldest ≤ t) (hp : e.pair? = none) :
    g.fate d e t = .ok .clockOnly := by
  unfold fate
  rw [if_neg (Int.not_lt.mpr ht)]
  split
  next hperson hattr => simp [Event.pair?, hperson, hattr] at hp
  next => rfl

theorem fate_eq_error {err : IntakeError} (ht : g.oldest ≤ t) (hp : e.pair? = some p)
    (h : Refuses g.config d e p err) : g.fate d e t = .error err := by
  obtain ⟨hperson, hattr⟩ := Event.ids_of_pair? hp
  cases h with
  | unknownPerson h => simp only [fate, Int.not_lt.mpr ht, hperson, hattr, h, if_false]
  | unknownAttr hactive h =>
    simp only [fate, Int.not_lt.mpr ht, hperson, hattr, hactive, h, if_false]
  | tooManyPeople hu hlimit h => rw [fate_eq_of_usable ht hp hu, Config.limitFault?_people hlimit h]
  | tooManyAttrs hu hpeople hlimit h =>
    rw [fate_eq_of_usable ht hp hu, Config.limitFault?_of_people_lt hpeople, hlimit]
    simp [Option.filter, h]

theorem fate_eq_ignored (ht : g.oldest ≤ t) (hp : e.pair? = some p) (h : Ignores d e p) :
    g.fate d e t = .ok .ignored := by
  obtain ⟨hperson, hattr⟩ := Event.ids_of_pair? hp
  cases h with
  | recycledPerson h => simp only [fate, Int.not_lt.mpr ht, hperson, hattr, h, if_false]
  | recycledAttr hactive h =>
    simp only [fate, Int.not_lt.mpr ht, hperson, hattr, hactive, h, if_false]
  | notFinite hactive h =>
    obtain ⟨hpactive, haactive⟩ := Directory.isActive_iff.mp hactive
    simp only [fate, Int.not_lt.mpr ht, hperson, hattr, hpactive, haactive, h, if_false,
      Bool.false_eq_true]

/-- an event of a pair that is usable, and within the limits -/
theorem refuses_or_fate_eq_taken (ht : g.oldest ≤ t) (hp : e.pair? = some p)
    (hu : e.isUsable d p = true) :
    (∃ err, Refuses g.config d e p err) ∨ g.fate d e t = .ok (.taken p) := by
  rw [fate_eq_of_usable ht hp hu]
  by_cases hpeople : ∀ l, g.config.maxPeople = some l → p.person < l
  · rw [Config.limitFault?_of_people_lt hpeople]
    cases hl : g.config.maxAttributes with
    | none => exact .inr rfl
    | some limit =>
      rcases Nat.lt_or_ge p.attr limit with h | h
      · right
        simp [Option.filter, Nat.not_le.mpr h]
      · exact .inl ⟨_, .tooManyAttrs hu hpeople hl h⟩
  · push Not at hpeople
    obtain ⟨limit, hl, h⟩ := hpeople
    exact .inl ⟨_, .tooManyPeople hu hl h⟩

/-- an event in time that has both ids is refused, ignored or taken -/
theorem fate_cases (ht : g.oldest ≤ t) (hp : e.pair? = some p) :
    (∃ err, Refuses g.config d e p err) ∨ Ignores d e p ∨ g.fate d e t = .ok (.taken p) := by
  cases hperson : d.person p.person with
  | unknown => exact .inl ⟨_, .unknownPerson hperson⟩
  | recycled => exact .inr (.inl (.recycledPerson hperson))
  | active =>
    cases hattr : d.attr p.attr with
    | unknown => exact .inl ⟨_, .unknownAttr hperson hattr⟩
    | recycled => exact .inr (.inl (.recycledAttr hperson hattr))
    | active =>
      have hactive := Directory.isActive_iff.mpr ⟨hperson, hattr⟩
      cases hfinite : e.values.all Binary64.isFinite with
      | false => exact .inr (.inl (.notFinite hactive hfinite))
      | true =>
        rcases refuses_or_fate_eq_taken ht hp (Event.isUsable_iff.mpr ⟨hactive, hfinite⟩) with h | h
        · exact .inl h
        · exact .inr (.inr h)

end Gatherer

/-! ## the same but for one bucket -/

/-- the same window, but for what is in the single bucket that holds `time` -/
structure Window.SameBut {α : Type} (time : Int) (w w' : Window α) : Prop where
  spans : w'.spans = w.spans
  length : w'.ring.length = w.ring.length
  newest : w'.ring.newest = w.ring.newest
  contains : ∀ u, w'.ring.contains u = w.ring.contains u
  get? : ∀ u, bucketAt u w.ring.length ≠ bucketAt time w.ring.length →
    w'.ring.get? u = w.ring.get? u

theorem Window.SameBut.refl {α : Type} (w : Window α) (t : Int) : w.SameBut t w :=
  ⟨rfl, rfl, rfl, fun _ => rfl, fun _ _ => rfl⟩

theorem Window.SameBut.trans {α : Type} {w w' w'' : Window α} {t : Int} (h : w.SameBut t w')
    (h' : w'.SameBut t w'') : w.SameBut t w'' where
  spans := h'.spans.trans h.spans
  length := h'.length.trans h.length
  newest := h'.newest.trans h.newest
  contains u := (h'.contains u).trans (h.contains u)
  get? u hu := (h'.get? u (h.length ▸ hu)).trans (h.get? u hu)

theorem Window.Fits.sameBut_modify {α : Type} [PairData α] {w : Window α} {c : Config} {start : Int}
    (h : w.Fits c start) (t : Int) (f : α → α) : w.SameBut t (w.modify t f) where
  spans := rfl
  length := Ring.length_modify w.ring t f
  newest := Ring.newest_modify w.ring t f
  contains u := Ring.contains_modify w.ring t u f
  get? u hu := (Ring.get?_modify h.ring.sound t u f).trans (if_neg hu)

/-- the same series, but for what is in the single bucket that holds a time -/
inductive Series.SameBut (time : Int) : Series → Series → Prop
  | occurrences {s s' : Occurrences} (h : s.window.SameBut time s'.window) :
      SameBut time (.occurrences s) (.occurrences s')
  | measured {s s' : Measured} (h : s.window.SameBut time s'.window)
      (hsamples : s'.samples = s.samples) (hweight : s'.weight = s.weight) :
      SameBut time (.measured s) (.measured s')

theorem Series.SameBut.refl (s : Series) (t : Int) : s.SameBut t s := by
  cases s with
  | occurrences s => exact .occurrences (.refl _ t)
  | measured s => exact .measured (.refl _ t) rfl rfl

theorem Series.SameBut.trans {s s' s'' : Series} {t : Int} (h : s.SameBut t s')
    (h' : s'.SameBut t s'') : s.SameBut t s'' := by
  cases h with
  | occurrences h =>
    cases h' with
    | occurrences h' => exact .occurrences (h.trans h')
  | measured h hsamples hweight =>
    cases h' with
    | measured h' hsamples' hweight' =>
      exact .measured (h.trans h') (hsamples'.trans hsamples) (hweight'.trans hweight)

theorem Series.Fits.sameBut_taking {s : Series} {c : Config} {start : Int} {kind : SeriesKind}
    (h : s.Fits c start kind) (x : Recorded) : s.SameBut x.time (s.taking x) := by
  cases h with
  | occurrences window =>
    rw [taking_occurrences window]
    exact .occurrences (window.sameBut_modify _ _)
  | measured window samples weight =>
    rw [taking_measured window]
    exact .measured (window.sameBut_modify _ _) rfl rfl

namespace Gatherer

/-- the same clock, spans and sample counts, and the same buckets but for the single ones that hold
`time` -/
structure SameBut (time : Int) (g g' : Gatherer) : Prop where
  config : g'.config = g.config
  start : g'.start = g.start
  counts : g.counts.SameBut time g'.counts
  series : g.series.SameBut time g'.series

variable {g : Gatherer} {kind : SeriesKind} {c : Config} {d : Directory} {e : Event} {t : Int}

theorem SameBut.trans {g' g'' : Gatherer} (h : SameBut t g g') (h' : SameBut t g' g'') :
    SameBut t g g'' :=
  ⟨h'.config.trans h.config, h'.start.trans h.start, h.counts.trans h'.counts,
    h.series.trans h'.series⟩

/-- the earliest time, the copies of texts and the room for ids stand by themselves -/
theorem SameBut.of_alike {g' h : Gatherer} (hsame : SameBut t g g') (ha : Alike g' h) :
    SameBut t g h := by
  obtain ⟨pool, bounds, rfl⟩ := ha
  exact ⟨hsame.config, hsame.start, hsame.counts, hsame.series⟩

theorem Sound.sameBut_record (hs : g.Sound kind c) (e : Event) (p : Pair)
    (ht : g.counts.ring.contains t = true) : SameBut t g (g.record e t p) := by
  refine SameBut.of_alike ?_ (record_alike e p ht).symm
  cases hr : e.record? t p with
  | none => exact ⟨rfl, rfl, .refl _ t, .refl _ t⟩
  | some x =>
    obtain rfl : x.time = t := (Event.of_record? hr).1
    exact ⟨rfl, rfl, hs.counts.sameBut_modify _ _, hs.series.sameBut_taking x⟩

/-- noting a time that is not before the window is a tick, but for the earliest time -/
theorem observe_eq_tick (ht : g.oldest ≤ t) : g.observe t =
    { (g.tick t).2 with earliest := some (g.earliest.elim t fun e => min e t) } := by
  rw [tick_of_le ht]
  exact advance_comm
    (f := fun k => { k with earliest := some (g.earliest.elim t fun e => min e t) })
    (fun _ => rfl) (fun _ => rfl) (fun _ _ => rfl) (fun _ _ => rfl) g t

theorem earliest_record (g : Gatherer) (e : Event) (t : Int) (p : Pair) :
    (g.record e t p).earliest = g.earliest := by
  unfold Gatherer.record
  simp only
  split
  · rfl
  · split <;> rfl

/-- an event without both ids, and one that is neither refused nor ignored, does what a tick does,
apart from the earliest time, the room for ids, the copies of texts and the bucket of its time -/
theorem Sound.add_of_accepted (hs : g.Sound kind c) (ht : e.time = some t) (hin : g.oldest ≤ t)
    (hr : ∀ p err, e.pair? = some p → ¬Refuses g.config d e p err)
    (hi : ∀ p, e.pair? = some p → ¬Ignores d e p) :
    (g.add d e).1 = .ok true ∧
      (g.add d e).2.earliest = some (g.earliest.elim t fun e => min e t) ∧
      SameBut t (g.tick t).2 (g.add d e).2 := by
  have hnoted : SameBut t (g.tick t).2 (g.observe t) := by
    rw [observe_eq_tick hin]
    exact ⟨rfl, rfl, .refl _ t, .refl _ t⟩
  cases hp : e.pair? with
  | none =>
    have hadd : g.add d e = (.ok true, g.observe t) := by
      simp only [Gatherer.add, ht, fate_eq_clockOnly hin hp]
    rw [hadd]
    exact ⟨rfl, by rw [observe_eq_tick hin], hnoted⟩
  | some p =>
    have hfate : g.fate d e t = .ok (.taken p) := by
      rcases fate_cases hin hp with ⟨err, h⟩ | h | h
      · exact absurd h (hr p err hp)
      · exact absurd h (hi p hp)
      · exact h
    have hadd : g.add d e = (.ok true, ((g.widen p).observe t).record e t p) := by
      simp only [Gatherer.add, ht, hfate]
    have hwide : Alike (g.observe t) ((g.widen p).observe t) :=
      Alike.observe ⟨g.pool, g.bounds.widen p, rfl⟩ t
    have hrecord := ((hs.widen p).observe t).sameBut_record e p (contains_observe (hs.widen p) hin)
    rw [hadd]
    refine ⟨rfl, ?_, (hnoted.of_alike hwide).trans hrecord⟩
    show (((g.widen p).observe t).record e t p).earliest = _
    rw [earliest_record, observe_eq_tick (g := g.widen p) hin]
    rfl

theorem add_of_late (ht : e.time = some t) (hlate : t < g.oldest) : g.add d e = (.ok false, g) := by
  have hfate : g.fate d e t = .ok .late := by
    unfold fate
    rw [if_pos hlate]
  simp only [Gatherer.add, ht, hfate]

theorem add_of_refuses {p : Pair} {err : IntakeError} (ht : e.time = some t) (hin : g.oldest ≤ t)
    (hp : e.pair? = some p) (h : Refuses g.config d e p err) : g.add d e = (.error err, g) := by
  simp only [Gatherer.add, ht, fate_eq_error hin hp h]

theorem add_of_ignores {p : Pair} (ht : e.time = some t) (hin : g.oldest ≤ t)
    (hp : e.pair? = some p) (h : Ignores d e p) : g.add d e = (.ok true, g) := by
  simp only [Gatherer.add, ht, fate_eq_ignored hin hp h]

/-- an event with a time is late, refused, ignored or accepted -/
theorem add_cases (g : Gatherer) (d : Directory) (ht : e.time = some t) :
    t < g.oldest ∨
    (∃ p err, g.oldest ≤ t ∧ e.pair? = some p ∧ Refuses g.config d e p err) ∨
    (g.oldest ≤ t ∧ (g.add d e).1 = .ok true) := by
  rcases lt_or_ge t g.oldest with hlate | hin
  · exact .inl hlate
  cases hp : e.pair? with
  | none =>
    refine .inr (.inr ⟨hin, ?_⟩)
    simp only [Gatherer.add, ht, fate_eq_clockOnly hin hp]
  | some p =>
    rcases fate_cases (d := d) hin hp with ⟨err, h⟩ | h | h
    · exact .inr (.inl ⟨p, err, hin, rfl, h⟩)
    · exact .inr (.inr ⟨hin, congrArg Prod.fst (add_of_ignores ht hin hp h)⟩)
    · refine .inr (.inr ⟨hin, ?_⟩)
      simp only [Gatherer.add, ht, h]

theorem answer_eq_late_iff (ht : e.time = some t) :
    (g.add d e).1 = .ok false ↔ t < g.oldest := by
  refine ⟨fun h => ?_, fun h => congrArg Prod.fst (add_of_late ht h)⟩
  rcases add_cases g d ht with hlate | ⟨p, err, hin, hp, hr⟩ | ⟨-, htrue⟩
  · exact hlate
  · rw [add_of_refuses ht hin hp hr] at h
    cases h
  · cases h.symm.trans htrue

theorem answer_eq_error_iff {err : IntakeError} (ht : e.time = some t) :
    (g.add d e).1 = .error err ↔
      g.oldest ≤ t ∧ ∃ p, e.pair? = some p ∧ Refuses g.config d e p err := by
  refine ⟨fun h => ?_, fun ⟨hin, p, hp, hr⟩ => congrArg Prod.fst (add_of_refuses ht hin hp hr)⟩
  rcases add_cases g d ht with hlate | ⟨p, err', hin, hp, hr⟩ | ⟨-, htrue⟩
  · rw [add_of_late ht hlate] at h
    cases h
  · rw [add_of_refuses ht hin hp hr] at h
    obtain rfl : err' = err := Except.error.inj h
    exact ⟨hin, p, hp, hr⟩
  · cases h.symm.trans htrue

theorem answer_eq_missingTime_iff : (g.add d e).1 = .error .missingTime ↔ e.time = none := by
  cases ht : e.time with
  | none => simp only [Gatherer.add, ht]
  | some t =>
    rw [answer_eq_error_iff ht]
    refine ⟨fun ⟨_, _, _, h⟩ => ?_, fun h => ?_⟩
    · cases h
    · cases h

/-- an answer other than that of an accepted event leaves everything as it was -/
theorem eq_of_answer_ne (h : (g.add d e).1 ≠ .ok true) : (g.add d e).2 = g := by
  cases ht : e.time with
  | none => simp only [Gatherer.add, ht]
  | some t =>
    rcases add_cases g d ht with hlate | ⟨p, err, hin, hp, hr⟩ | ⟨-, htrue⟩
    · rw [add_of_late ht hlate]
    · rw [add_of_refuses ht hin hp hr]
    · exact absurd htrue h

/-- the answer to an event is that of the first check it fails, and then nothing is changed; one
that passes them all moves the clock, lowers the earliest time, and has no effect on the buckets but
on its own one -/
theorem add_is_atomic (hr : Reachable kind c g) (hs : c.bucketLength.secs.toNat < 2 ^ 63)
    (d : Directory) (e : Event) :
    ((g.add d e).1 = .error .missingTime ↔ e.time = none) ∧
    ((g.add d e).1 ≠ .ok true → (g.add d e).2 = g) ∧
    ∀ t, e.time = some t →
      ((g.add d e).1 = .ok false ↔ t < g.oldest) ∧
      (∀ err, (g.add d e).1 = .error err ↔
        g.oldest ≤ t ∧ ∃ p, e.pair? = some p ∧ Refuses g.config d e p err) ∧
      (∀ p, g.oldest ≤ t → e.pair? = some p → Ignores d e p → g.add d e = (.ok true, g)) ∧
      (g.oldest ≤ t → (∀ p err, e.pair? = some p → ¬Refuses g.config d e p err) →
        (∀ p, e.pair? = some p → ¬Ignores d e p) →
        let g' := (g.add d e).2
        (g.add d e).1 = .ok true ∧ g'.start = max g.start (bucketAt t g.length) ∧
        g'.earliest = some (g.earliest.elim t fun e => min e t) ∧ SameBut t (g.tick t).2 g') := by
  have hsound := hr.sound hs
  refine ⟨answer_eq_missingTime_iff, eq_of_answer_ne, fun t ht => ⟨answer_eq_late_iff ht,
    fun err => answer_eq_error_iff ht, fun p hin hp h => add_of_ignores ht hin hp h,
    fun hin hrefuses hignores => ?_⟩⟩
  obtain ⟨hanswer, hearliest, hsame⟩ := hsound.add_of_accepted ht hin hrefuses hignores
  refine ⟨hanswer, ?_, hearliest, hsame⟩
  rw [hsame.start, tick_of_le hin]
  exact start_advance hsound t true

/-- a person beyond the limit, a recycled one, a late event and one that is accepted -/
theorem add_is_atomic_before_epoch :
    let c : Config := { Config.default with latencyBuckets := 2, maxPeople := some 5 }
    let d : Directory := ⟨fun id => if id = 3 then .recycled else .active, fun _ => .active⟩
    let event (person : Nat) (time : Int) : Event :=
      ⟨some time, some person, some 2, [⟨0x3fe0000000000000⟩], some 1, none, [], false⟩
    ∃ g, new .metric c (-700) = .ok g ∧
      g.add d (event 7 (-700)) = (.error (.capacityExhausted .people 7 5), g) ∧
      g.add d (event 3 (-700)) = (.ok true, g) ∧
      g.add d (event 1 (-1501)) = (.ok false, g) ∧
      (g.add d (event 1 (-1000))).1 = .ok true ∧
      (g.add d (event 1 (-1000))).2.earliest = some (-1000) ∧
      SameBut (-1000) (g.tick (-1000)).2 (g.add d (event 1 (-1000))).2 := by
  intro c d event
  have hvalid : c.fault? .metric = none := by decide
  have hnew := new_eq hvalid (-700)
  have hreach {g : Gatherer} (h : new .metric c (-700) = .ok g) : Reachable .metric c g :=
    ⟨-700, g, [], h, rfl⟩
  have hatomic := add_is_atomic (hreach hnew) (by decide) d
  refine ⟨_, hnew, ?_, ?_, ?_, ?_⟩
  · obtain ⟨-, hkept, hstatus⟩ := hatomic (event 7 (-700))
    have hanswer := ((hstatus (-700) rfl).2.1 (.capacityExhausted .people 7 5)).mpr
      ⟨by decide, ⟨7, 2⟩, rfl, .tooManyPeople (by decide) rfl (by decide)⟩
    exact Prod.ext hanswer (hkept (by rw [hanswer]; exact nofun))
  · exact ((hatomic (event 3 (-700))).2.2 (-700) rfl).2.2.1 ⟨3, 2⟩ (by decide) rfl
      (.recycledPerson rfl)
  · obtain ⟨-, hkept, hstatus⟩ := hatomic (event 1 (-1501))
    have hanswer := (hstatus (-1501) rfl).1.mpr (by decide)
    exact Prod.ext hanswer (hkept (by rw [hanswer]; exact nofun))
  · have hrefuses (p : Pair) (err : IntakeError) (hp : (event 1 (-1000)).pair? = some p) :
        ¬Refuses c d (event 1 (-1000)) p err := by
      obtain rfl : (⟨1, 2⟩ : Pair) = p := Option.some.inj hp
      intro h
      cases h with
      | unknownPerson h => exact absurd h (by decide)
      | unknownAttr _ h => exact absurd h (by decide)
      | tooManyPeople _ hlimit h =>
        obtain rfl := Option.some.inj hlimit
        exact absurd h (by decide)
      | tooManyAttrs _ _ hlimit => cases hlimit
    have hignores (p : Pair) (hp : (event 1 (-1000)).pair? = some p) :
        ¬Ignores d (event 1 (-1000)) p := by
      obtain rfl : (⟨1, 2⟩ : Pair) = p := Option.some.inj hp
      intro h
      cases h with
      | recycledPerson h => exact absurd h (by decide)
      | recycledAttr _ h => exact absurd h (by decide)
      | notFinite _ h => exact absurd h (by decide)
    obtain ⟨hanswer, -, hearliest, hsame⟩ := ((hatomic (event 1 (-1000))).2.2 (-1000) rfl).2.2.2
      (by decide) hrefuses hignores
    exact ⟨hanswer, hearliest, hsame⟩

end Gatherer

end EventBuckets
