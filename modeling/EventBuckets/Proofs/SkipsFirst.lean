import EventBuckets.Proofs.Available
import EventBuckets.Proofs.Lines

/-!
# Only the first buckets are skipped

A bucket is skipped as long as no event has been taken in by its end.  The earliest event only ever
becomes earlier and the buckets come in order, so the first bucket that is sampled ends the skipping;
and data that is there has been announced, so what is skipped is empty.

* `Run.Skips`, `Run.Samples`  what becomes of the next bucket;
* `Run.Heard`                 data is announced, and stays available for what comes later;
* `Along.pairwise`            what each run has of those before it holds of any two in order;
* `Replay.skips_first`        the buckets that a replay skips are the first ones, and empty.
-/

set_option linter.unusedSectionVars false

namespace EventBuckets

/-! ## lists -/

/-- where what is found is followed by what is found, the rest comes first -/
theorem exists_split_of_pairwise {α : Type} {p : α → Bool} {as : List α}
    (h : as.Pairwise fun a b => p a = true → p b = true) :
    ∃ before after, as = before ++ after ∧ (∀ a ∈ before, p a = false) ∧
      ∀ a ∈ after, p a = true := by
  induction as with
  | nil => exact ⟨[], [], rfl, List.forall_mem_nil _, List.forall_mem_nil _⟩
  | cons a as ih =>
    obtain ⟨hfirst, hrest⟩ := List.pairwise_cons.mp h
    cases hp : p a with
    | true =>
      exact ⟨[], a :: as, rfl, List.forall_mem_nil _,
        List.forall_mem_cons.mpr ⟨hp, fun b hb => hfirst b hb hp⟩⟩
    | false =>
      obtain ⟨before, after, rfl, hbefore, hafter⟩ := ih hrest
      exact ⟨a :: before, after, rfl, List.forall_mem_cons.mpr ⟨hp, hbefore⟩, hafter⟩

/-! ## gatherers -/

namespace Gatherer
variable {g h : Gatherer} {kind : SeriesKind} {c : Config} {s t : Int}

theorem available_congr (hearliest : h.earliest = g.earliest) (hlength : h.length = g.length)
    (t : Int) : h.available t = g.available t := by
  unfold available
  rw [hearliest, hlength]

theorem available_mono (ha : g.available s = true) (hst : s ≤ t) : g.available t = true := by
  obtain ⟨e, he, hle⟩ := available_iff.mp ha
  exact available_iff.mpr ⟨e, he, hle.trans hst⟩

theorem available_observe (hs : g.Sound kind c) (ha : g.available t = true) (u : Int) :
    (g.observe u).available t = true := by
  obtain ⟨e, he, hle⟩ := available_iff.mp ha
  have hearliest : (g.observe u).earliest = some (g.earliest.elim u fun e => min e u) :=
    earliest_advance (g := { g with earliest := some (g.earliest.elim u fun e => min e u) })
      ⟨hs.config_eq, hs.valid, hs.counts, hs.series⟩ u true
  rw [he] at hearliest
  refine available_iff.mpr ⟨min e u, hearliest, ?_⟩
  rw [(hs.observe u).length_eq, ← hs.length_eq]
  exact (bucketAt_mono hs.pos (min_le_left e u)).trans hle

/-- an event makes the earliest time no later -/
theorem available_add (hs : g.Sound kind c) (ha : g.available t = true) (d : Directory) (e : Event) :
    (g.add d e).2.available t = true := by
  have hadds := adds g d e
  generalize g.add d e = r at hadds
  cases hadds with
  | untimed | refused | late | ignored => exact ha
  | noted => exact available_observe hs ha _
  | @taken u p =>
    have hwide : (g.widen p).available t = true := ha
    have hsound := (hs.widen p).observe u
    refine Eq.trans ?_ (available_observe (hs.widen p) hwide u)
    refine available_congr ?_ ((hsound.record e u p).length_eq.trans hsound.length_eq.symm) t
    unfold Gatherer.record
    simp only
    split
    · rfl
    · split <;> rfl

end Gatherer

/-! ## runs -/

namespace Run
variable {r r' : Run} {kind : SeriesKind} {c : Config} {first : Int} {seen vs : List Run}
  {P : Run → List Run → Prop}

/-- the next bucket is skipped: nothing is sampled or written, and when it is reached it holds no
data, nor does it once there is room for it -/
structure Skips (r : Run) : Prop where
  unavailable : r.gatherer.available r.next = false
  gatherer_eq : r.sampleNext.2.gatherer = r.gatherer.skip r.next
  lines_eq : r.sampleNext.1 = []
  tallied : r.sampleNext.2.tallies = { r.tallies with skipped := r.tallies.skipped + 1 }
  empty : r.gatherer.hasData r.next = false
  stays_empty : (r.gatherer.skip r.next).hasData r.next = false

/-- the next bucket is sampled -/
structure Samples (r : Run) : Prop where
  available : r.gatherer.available r.next = true
  gatherer_eq : r.sampleNext.2.gatherer = ((r.gatherer.sample r.next).release r.next).2
  tallied : r.sampleNext.2.tallies.sampled = r.tallies.sampled + 1
  unskipped : r.sampleNext.2.tallies.skipped = r.tallies.skipped

theorem sampleNext_of_not_available (h : r.gatherer.available r.next = false) :
    r.sampleNext = ([], { r with
      gatherer := r.gatherer.skip r.next
      next := r.next + r.gatherer.length
      tallies := { r.tallies with skipped := r.tallies.skipped + 1 } }) := by
  unfold sampleNext
  simp [h]

theorem samples_of_available (h : r.gatherer.available r.next = true) : r.Samples := by
  refine ⟨h, ?_, ?_, ?_⟩
  all_goals
    unfold sampleNext
    simp only [h, if_true]

/-- what is not announced holds no data -/
theorem skips_of_not_available (hs : r.gatherer.Sound kind c) (ha : r.gatherer.Announced)
    (haligned : r.gatherer.length ∣ r.next) (h : r.gatherer.available r.next = false) : r.Skips := by
  have hs' := hs.skip r.next
  have ha' : (r.gatherer.skip r.next).Announced := ha.perform hs (.skip r.next)
  have hlength : (r.gatherer.skip r.next).length = r.gatherer.length :=
    hs'.length_eq.trans hs.length_eq.symm
  have hnext := sampleNext_of_not_available h
  refine ⟨h, by rw [hnext], by rw [hnext], by rw [hnext], ?_, ?_⟩
  · by_contra hdata
    have havailable := ha r.next (Bool.eq_true_of_not_eq_false hdata)
    rw [bucketAt_of_dvd haligned, h] at havailable
    cases havailable
  · by_contra hdata
    have havailable := ha' r.next (Bool.eq_true_of_not_eq_false hdata)
    have hearliest : (r.gatherer.skip r.next).earliest = r.gatherer.earliest :=
      Gatherer.earliest_advance hs _ false
    rw [hlength, bucketAt_of_dvd haligned, Gatherer.available_congr hearliest hlength, h]
      at havailable
    cases havailable

/-- data is announced, what was available for a bucket that was passed still is, and the tallies tell
the buckets that were skipped from those that were sampled -/
structure Heard (r : Run) (seen : List Run) : Prop where
  announced : r.gatherer.Announced
  available : ∀ v ∈ seen, v.gatherer.available v.next = true → r.gatherer.available v.next = true
  skipped_eq : r.tallies.skipped = seen.countP fun v => !v.gatherer.available v.next
  sampled_eq : r.tallies.sampled = seen.countP fun v => v.gatherer.available v.next

/-- passing a bucket changes nothing in what is available -/
theorem available_sampleNext (hs : r.gatherer.Sound kind c) (t : Int) :
    r.sampleNext.2.gatherer.available t = r.gatherer.available t := by
  refine Gatherer.available_congr ?_ ((sound_sampleNext hs).length_eq.trans hs.length_eq.symm) t
  have hearliest : r.passNext.earliest = r.gatherer.earliest := by
    unfold passNext
    split
    · exact Gatherer.earliest_advance hs _ true
    · exact Gatherer.earliest_advance hs _ false
  rw [gatherer_sampleNext]
  split
  · exact hearliest
  · exact hearliest

theorem Heard.sampleNext (h : r.Heard seen) (hs : r.gatherer.Sound kind c) :
    r.sampleNext.2.Heard (seen ++ [r]) := by
  refine ⟨?_, fun v hv havailable => ?_, ?_, ?_⟩
  · rw [gatherer_sampleNext]
    unfold passNext
    split
    · exact (h.announced.perform hs (.sample r.next)).perform (hs.sample r.next) (.release r.next)
    · exact h.announced.perform hs (.skip r.next)
  · rw [available_sampleNext hs]
    rcases List.mem_append.mp hv with hv | hv
    · exact h.available v hv havailable
    · obtain rfl := List.mem_singleton.mp hv
      exact havailable
  · rw [List.countP_append, ← h.skipped_eq, List.countP_singleton]
    cases havailable : r.gatherer.available r.next with
    | true => exact (samples_of_available havailable).unskipped
    | false => rw [sampleNext_of_not_available havailable]; rfl
  · rw [List.countP_append, ← h.sampled_eq, List.countP_singleton]
    cases havailable : r.gatherer.available r.next with
    | true => exact (samples_of_available havailable).tallied
    | false => rw [sampleNext_of_not_available havailable]; rfl

theorem Heard.intake (h : r.Heard seen) (hs : r.gatherer.Sound kind c) {x : Record}
    (hok : r.intake x = .ok r') : r'.Heard seen := by
  obtain ⟨-, hgatherer⟩ := intake_spec hok
  obtain ⟨hsampled, hskipped⟩ := tallies_intake hok
  refine ⟨?_, fun v hv hv' => ?_, hskipped.trans h.skipped_eq, hsampled.trans h.sampled_eq⟩
  · rcases hgatherer with ⟨hsame, -⟩ | ⟨d, e, -, hadd, -⟩
    · rw [hsame]
      exact h.announced
    · rw [hadd]
      exact h.announced.add hs d e
  · rcases hgatherer with ⟨hsame, -⟩ | ⟨d, e, -, hadd, -⟩
    · rw [hsame]
      exact h.available v hv hv'
    · rw [hadd]
      exact Gatherer.available_add hs (h.available v hv hv') d e

theorem heard_start (hs : c.bucketLength.secs.toNat < 2 ^ 63) {time : Int}
    (h : Run.start kind c time = .ok r) : r.Heard [] := by
  unfold Run.start at h
  split at h
  next g hg =>
    obtain rfl := Except.ok.inj h
    exact ⟨Gatherer.announced_new hs hg, List.forall_mem_nil _, rfl, rfl⟩
  · cases h

theorem keeps_heard : Keeps kind c Heard where
  sampleNext hon h := h.sampleNext hon.sound
  noting h := ⟨h.announced, h.available, h.skipped_eq, h.sampled_eq⟩
  intake hs h hok := h.intake hs hok

/-- what each run has of those before it holds of any two in their order -/
theorem Along.pairwise {R : Run → Run → Prop} (h : Along P seen vs)
    (hR : ∀ {v w ws}, P w ws → v ∈ ws → R v w) : vs.Pairwise R := by
  induction vs generalizing seen with
  | nil => exact .nil
  | cons v vs ih =>
    refine .cons (fun w hw => ?_) (ih h.2)
    obtain ⟨before, after, rfl⟩ := List.append_of_mem hw
    exact hR h.2.of_split
      (List.mem_append_left _ (List.mem_append_right _ (List.mem_singleton_self v)))

end Run

/-! ## replays -/

namespace Replay
variable {r r' : Replay} {kind : SeriesKind} {c : Config}

open Run (Along Heard Reached writtenBy)

/-- once a bucket is sampled, so is every later one -/
theorem pairwise_available {first : Int} {vs : List Run}
    (h : Along (Reached Heard kind c first) [] vs) :
    vs.Pairwise fun v w => v.gatherer.available v.next = true →
      w.gatherer.available w.next = true := by
  have hpast : vs.Pairwise fun v w => v.gatherer.available v.next = true →
      w.gatherer.available v.next = true := h.pairwise fun hw hv => hw.kept.available _ hv
  refine (hpast.and h.pairwise_next).imp_of_mem fun {v w} hv _ hvw havailable => ?_
  obtain ⟨_, hreached⟩ := h.reached hv
  have hpos := hreached.onTime.sound.counts.ring.pos
  have hnext := hvw.2
  exact Gatherer.available_mono (hvw.1 havailable) (by omega)

/-- the tallies in the end -/
theorem tallies_finish {first : Int} {vs : List Run}
    (hend : r'.finish.2.run = none ∧ vs = [] ∨
      ∃ run, r'.finish.2.run = some run ∧ run.Reached Heard kind c first vs) :
    r'.finish.2.tallies.skipped = (vs.countP fun v => !v.gatherer.available v.next) ∧
      r'.finish.2.tallies.sampled = vs.countP fun v => v.gatherer.available v.next := by
  unfold tallies
  rcases hend with ⟨hnone, rfl⟩ | ⟨run, hrun, hreached⟩
  · rw [hnone]
    exact ⟨rfl, rfl⟩
  · rw [hrun]
    exact ⟨hreached.kept.skipped_eq, hreached.kept.sampled_eq⟩

/-- the buckets that a replay skips come before all that it samples, each of them is empty, and only
the others write lines -/
theorem skips_first (hs : c.bucketLength.secs.toNat < 2 ^ 63)
    (hnew : Replay.new kind c = .ok r) {xs : List Record} {lines : Array FeatureLine}
    (hok : feedAll #[] r xs = (lines, .ok r')) :
    ∃ skipped sampled, r.visits xs = skipped ++ sampled ∧
      (r.visits xs).Pairwise (fun v w => v.next < w.next) ∧
      (∀ v ∈ skipped, v.Skips) ∧ (∀ v ∈ sampled, v.Samples) ∧
      r'.finish.2.tallies.skipped = skipped.length ∧
      r'.finish.2.tallies.sampled = sampled.length ∧
      (lines ++ r'.finish.1).toList = writtenBy sampled := by
  obtain ⟨first, halong, hwritten, hend⟩ :=
    exists_reached_finish hs Run.keeps_heard hnew (fun _ _ _ h => Run.heard_start hs h) hok
  obtain ⟨skipped, sampled, hvisits, hskipped, hsampled⟩ :=
    exists_split_of_pairwise (p := fun v : Run => v.gatherer.available v.next)
      (pairwise_available halong)
  have hskips : ∀ v ∈ skipped, v.Skips := by
    intro v hv
    obtain ⟨_, hreached⟩ := halong.reached (hvisits ▸ List.mem_append_left _ hv)
    have hsound := hreached.onTime.sound
    exact Run.skips_of_not_available hsound hreached.kept.announced
      (hsound.length_eq ▸ hreached.onTime.aligned) (hskipped v hv)
  obtain ⟨htallied, htallied'⟩ := tallies_finish hend
  have hnone : writtenBy skipped = [] :=
    List.flatMap_eq_nil_iff.mpr fun v hv => (hskips v hv).lines_eq
  refine ⟨skipped, sampled, hvisits, ?_, hskips,
    fun v hv => Run.samples_of_available (hsampled v hv), ?_, ?_, ?_⟩
  · refine halong.pairwise_next.imp_of_mem fun {v w} hv _ hvw => ?_
    obtain ⟨_, hreached⟩ := halong.reached hv
    have hpos := hreached.onTime.sound.counts.ring.pos
    omega
  · rw [htallied, hvisits, List.countP_append,
      List.countP_eq_length.mpr fun v hv => by rw [hskipped v hv]; rfl,
      List.countP_eq_zero.mpr fun v hv => by rw [hsampled v hv]; decide, Nat.add_zero]
  · rw [htallied', hvisits, List.countP_append,
      List.countP_eq_zero.mpr fun v hv => by rw [hskipped v hv]; decide,
      List.countP_eq_length.mpr fun v hv => hsampled v hv, Nat.zero_add]
  · rw [hwritten, hvisits, Run.writtenBy_append, hnone, List.nil_append]

/-- a first record that is ignored, and one that comes late into the first bucket that is sampled -/
theorem skips_first_two :
    let c : Config := { Config.default with bucketLength := .ofSecs 60, latencyBuckets := 1 }
    let r : Replay := ⟨.eventRate, c, none⟩
    let record (time : Int) (values : List Binary64) : Record :=
      ⟨time, some "alice", some "login", none, values, some 1, none, [], false⟩
    let xs : List Record := [record 10 [Binary64.ofParts false Binary64.infinite], record 200 [],
      record 130 []]
    ∃ lines r' skipped sampled, feedAll #[] r xs = (lines, .ok r') ∧
      r.visits xs = skipped ++ sampled ∧ skipped.map Run.next = [0, 60] ∧
      sampled.map Run.next = [120, 180] ∧ (∀ v ∈ skipped, v.Skips) ∧
      (∀ v ∈ sampled, v.Samples) ∧ (lines ++ r'.finish.1).toList = writtenBy sampled := by
  intro c r record xs
  have hnew : Replay.new .eventRate c = .ok r := by
    unfold Replay.new
    rw [show c.fault? .eventRate = none by decide]
  obtain ⟨r', hr', htallied⟩ : ∃ r', (feedAll #[] r xs).2 = .ok r' ∧
      r'.finish.2.tallies.skipped = 2 := by
    have hok : ((feedAll #[] r xs).2.toOption.map fun r' => r'.finish.2.tallies.skipped) =
        some 2 := by
      simp only [r, c, xs, record]
      cbv
    cases hend : (feedAll #[] r xs).2 with
    | ok r' =>
      rw [hend] at hok
      exact ⟨r', rfl, Option.some.inj hok⟩
    | error e =>
      rw [hend] at hok
      cases hok
  have hfeed : feedAll #[] r xs = ((feedAll #[] r xs).1, .ok r') := by
    rw [← hr']
  have hnext : (r.visits xs).map Run.next = [0, 60] ++ [120, 180] := by
    simp only [r, c, xs, record]
    cbv
  obtain ⟨skipped, sampled, hvisits, -, hskips, hsamples, hlength, -, hwritten⟩ :=
    skips_first (by decide) hnew hfeed
  rw [htallied] at hlength
  rw [hvisits, List.map_append] at hnext
  obtain ⟨hfirst, hrest⟩ := List.append_inj hnext (by rw [List.length_map, ← hlength]; rfl)
  exact ⟨_, r', skipped, sampled, hfeed, hvisits, hfirst, hrest, hskips, hsamples, hwritten⟩

end Replay

end EventBuckets
