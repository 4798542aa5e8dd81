import EventBuckets.Proofs.Cursor

/-!
# Which lines a replay writes

Each bucket that is sampled writes the lines of the intervals that end with it.  The interval of a
line tells which bucket that was, so a line is written again just if its length is listed again.

* `FeatureLine.key`     the interval and the feature of a line;
* `Run.writtenBy`       the lines that runs write when they pass their next bucket;
* `Run.Along`           what holds of each run of a list and the runs before it;
* `Run.Keeps`           what a bucket that is passed and a record that is taken keep;
* `Replay.exists_reached_finish`
                        so it holds of each run that passes a bucket, and in the end;
* `OnTime.next_of_mem`  the interval of a line tells the bucket that it was written with;
* `OnTime.count_key`    how often a bucket writes a line of an interval and a feature;
* `Replay.written_once_for_each_listing`
                        so often does a replay.
-/

namespace EventBuckets

/-- the interval and the feature of a line -/
def FeatureLine.key (l : FeatureLine) : Int × Int × Feature := (l.start, l.length, l.feature)

/-- the first time after the interval of a line -/
def FeatureLine.stop (l : FeatureLine) : Int := l.start + l.length

namespace Run
variable {r r' : Run} {kind : SeriesKind} {c : Config} {first : Int} {seen vs ws : List Run}
  {P Q : Run → List Run → Prop}

/-! ## along the buckets -/

/-- the lines that runs write when they pass their next bucket -/
def writtenBy (vs : List Run) : List FeatureLine := vs.flatMap fun v => v.sampleNext.1

@[simp] theorem writtenBy_nil : writtenBy [] = [] := rfl

theorem writtenBy_cons (v : Run) (vs : List Run) :
    writtenBy (v :: vs) = v.sampleNext.1 ++ writtenBy vs := rfl

theorem writtenBy_append (vs ws : List Run) :
    writtenBy (vs ++ ws) = writtenBy vs ++ writtenBy ws := List.flatMap_append

theorem writtenBy_concat (vs : List Run) (v : Run) :
    writtenBy (vs ++ [v]) = writtenBy vs ++ v.sampleNext.1 := by
  rw [writtenBy_append, writtenBy_cons, writtenBy_nil, List.append_nil]

/-- what holds of each run of a list and the runs before it, of which there are some already -/
def Along (P : Run → List Run → Prop) : List Run → List Run → Prop
  | _, [] => True
  | seen, v :: vs => P v seen ∧ Along P (seen ++ [v]) vs

theorem along_append : Along P seen (vs ++ ws) ↔ Along P seen vs ∧ Along P (seen ++ vs) ws := by
  induction vs generalizing seen with
  | nil => simp [Along]
  | cons v vs ih => simp [Along, ih, and_assoc]

theorem Along.of_split (h : Along P seen (vs ++ r :: ws)) : P r (seen ++ vs) :=
  (along_append.mp h).2.1

/-- what a bucket that is passed and a record that is taken keep of a run and the runs before it -/
structure Keeps (kind : SeriesKind) (c : Config) (Q : Run → List Run → Prop) : Prop where
  sampleNext : ∀ {r first seen}, r.OnTime kind c first seen (writtenBy seen) → Q r seen →
    Q r.sampleNext.2 (seen ++ [r])
  noting : ∀ {r seen}, Q r seen → Q r.noting seen
  intake : ∀ {r r' : Run} {seen x}, r.gatherer.Sound kind c → Q r seen → r.intake x = .ok r' →
    Q r' seen

theorem keeps_true : Keeps kind c fun _ _ => True :=
  ⟨fun _ _ => trivial, fun _ => trivial, fun _ _ _ => trivial⟩

/-- a run that is on time after the runs before it, with what is kept -/
structure Reached (Q : Run → List Run → Prop) (kind : SeriesKind) (c : Config) (first : Int)
    (r : Run) (seen : List Run) : Prop where
  onTime : r.OnTime kind c first seen (writtenBy seen)
  kept : Q r seen

theorem Reached.sampleNext (hQ : Keeps kind c Q) (h : r.Reached Q kind c first seen) :
    r.sampleNext.2.Reached Q kind c first (seen ++ [r]) := by
  refine ⟨?_, hQ.sampleNext h.onTime h.kept⟩
  rw [writtenBy_concat]
  exact h.onTime.sampleNext

theorem Reached.sampleTimes (hQ : Keeps kind c Q) (n : Nat) (lines : Array FeatureLine)
    (h : r.Reached Q kind c first seen) :
    (sampleTimes n lines r).2.Reached Q kind c first (seen ++ visits n r) ∧
      Along (Reached Q kind c first) seen (visits n r) := by
  induction n generalizing lines r seen with
  | zero =>
    show r.Reached Q kind c first (seen ++ []) ∧ True
    rw [List.append_nil]
    exact ⟨h, trivial⟩
  | succ n ih =>
    obtain ⟨hrest, halong⟩ := ih (lines ++ r.sampleNext.1) (h.sampleNext hQ)
    rw [List.append_assoc] at hrest
    exact ⟨hrest, h, halong⟩

theorem Reached.ready (hQ : Keeps kind c Q) (h : r.Reached Q kind c first seen) (x : Record) :
    (r.ready x).2.Reached Q kind c first (seen ++ r.visitsBefore x) ∧
      Along (Reached Q kind c first) seen (r.visitsBefore x) := by
  have hnoted : r.noting.Reached Q kind c first seen :=
    ⟨⟨h.onTime.sound, h.onTime.first_aligned, h.onTime.next_eq, h.onTime.starts_eq,
      h.onTime.first_le, h.onTime.reach, h.onTime.near, h.onTime.passed, h.onTime.written_eq,
      h.onTime.tallied⟩, hQ.noting h.kept⟩
  exact hnoted.sampleTimes hQ _ #[]

theorem Reached.intake (hQ : Keeps kind c Q) (h : r.Reached Q kind c first seen) {x : Record}
    (hnext : bucketAt x.time c.bucketSeconds - c.latencyBuckets * c.bucketSeconds ≤ r.next)
    (hok : r.intake x = .ok r') : r'.Reached Q kind c first seen :=
  ⟨h.onTime.intake hnext hok, hQ.intake h.onTime.sound h.kept hok⟩

theorem Along.reached (h : Along (Reached Q kind c first) [] vs) (hr : r ∈ vs) :
    ∃ seen, r.Reached Q kind c first seen := by
  obtain ⟨before, after, rfl⟩ := List.append_of_mem hr
  exact ⟨_, h.of_split⟩

/-- the buckets are passed in ascending order -/
theorem Along.pairwise_next (h : Along (Reached Q kind c first) seen vs) :
    vs.Pairwise fun v w => v.next + c.bucketSeconds ≤ w.next := by
  induction vs generalizing seen with
  | nil => exact .nil
  | cons v vs ih =>
    refine .cons (fun w hw => ?_) (ih h.2)
    obtain ⟨before, after, rfl⟩ := List.append_of_mem hw
    have hv := h.1.onTime.next_eq
    have hw := h.2.of_split.onTime.next_eq
    have hpos := h.1.onTime.sound.counts.ring.pos
    have hnonneg : 0 ≤ (before.length : Int) * c.bucketSeconds :=
      Int.mul_nonneg (Int.natCast_nonneg _) hpos.le
    rw [List.length_append, List.length_append, List.length_singleton] at hw
    push_cast at hw
    rw [add_mul, add_mul, one_mul] at hw
    omega

end Run

namespace Replay
variable {r r' : Replay} {kind : SeriesKind} {c : Config} {first : Int} {seen : List Run}
  {Q : Run → List Run → Prop}

open Run (Along Keeps Reached writtenBy)

theorem exists_reached_feed (hQ : Keeps kind c Q) {x : Record} {run : Run}
    (hrun : r.begun x.time = .ok run) (h : run.Reached Q kind c first seen)
    {lines : Array FeatureLine} (hok : r.feed x = (lines, .ok r')) :
    ∃ run', r'.run = some run' ∧ run'.Reached Q kind c first (seen ++ run.visitsBefore x) ∧
      Along (Reached Q kind c first) seen (run.visitsBefore x) := by
  obtain ⟨hready, halong⟩ := h.ready hQ x
  obtain ⟨-, hnext⟩ := h.onTime.ready x
  unfold Replay.feed at hok
  rw [hrun] at hok
  simp only [Run.feed_eq] at hok
  split at hok
  next lines' run' heq =>
    obtain ⟨-, hintake⟩ := Prod.mk.inj heq
    obtain ⟨-, hr⟩ := Prod.mk.inj hok
    obtain rfl := Except.ok.inj hr
    exact ⟨run', rfl, hready.intake hQ hnext hintake, halong⟩
  · cases hok

theorem exists_reached_visits (hQ : Keeps kind c Q) {xs : List Record} {run : Run}
    (hrun : r.run = some run) (h : run.Reached Q kind c first seen)
    {before lines : Array FeatureLine} (hok : feedAll before r xs = (lines, .ok r')) :
    Along (Reached Q kind c first) seen (r.visits xs) ∧ ∃ run', r'.finish.2.run = some run' ∧
      run'.Reached Q kind c first (seen ++ r.visits xs) := by
  induction xs generalizing r run seen before with
  | nil =>
    obtain ⟨-, hr⟩ := Prod.mk.inj hok
    obtain rfl := Except.ok.inj hr
    obtain ⟨hlast, halong⟩ := h.sampleTimes hQ (run.pending run.gatherer.start) #[]
    unfold visits finish
    rw [hrun]
    exact ⟨halong, run.drain.2, rfl, hlast⟩
  | cons x xs ih =>
    have hbegun : r.begun x.time = .ok run := by
      unfold begun
      rw [hrun]
    unfold Replay.feedAll at hok
    split at hok
    next lines' r₁ hfeed =>
      obtain ⟨run₁, hrun₁, hnext, halong⟩ := exists_reached_feed hQ hbegun h hfeed
      rw [visits_cons hbegun hfeed, ← List.append_assoc]
      exact ⟨Run.along_append.mpr ⟨halong, (ih hrun₁ hnext hok).1⟩, (ih hrun₁ hnext hok).2⟩
    · cases hok

/-- what samplings and records keep holds of each run that passes a bucket in a replay and of the one
that is left in the end, if there was a record; these runs write the lines -/
theorem exists_reached_finish (hs : c.bucketLength.secs.toNat < 2 ^ 63) (hQ : Keeps kind c Q)
    (hnew : Replay.new kind c = .ok r) {xs : List Record}
    (hbegin : ∀ x ∈ xs.head?, ∀ run, Run.start kind c x.time = .ok run → Q run [])
    {lines : Array FeatureLine} (hok : feedAll #[] r xs = (lines, .ok r')) :
    ∃ first, Along (Reached Q kind c first) [] (r.visits xs) ∧
      (lines ++ r'.finish.1).toList = writtenBy (r.visits xs) ∧
      (r'.finish.2.run = none ∧ r.visits xs = [] ∨ ∃ run, r'.finish.2.run = some run ∧
        run.Reached Q kind c first (r.visits xs)) := by
  obtain ⟨-, rfl⟩ := of_new hnew
  cases xs with
  | nil =>
    obtain ⟨rfl, hr⟩ := Prod.mk.inj hok
    obtain rfl := Except.ok.inj hr
    exact ⟨0, trivial, rfl, .inl ⟨rfl, rfl⟩⟩
  | cons x xs =>
    unfold Replay.feedAll at hok
    split at hok
    next lines₀ r₁ hfeed =>
      -- the first record begins the run
      obtain ⟨run₀, hbegun⟩ := exists_begun hfeed
      have hstart : Run.start kind c x.time = .ok run₀ := hbegun
      have h₀ : run₀.Reached Q kind c (bucketAt x.time c.bucketSeconds) [] :=
        ⟨onTime_start hs hstart, hbegin x rfl run₀ hstart⟩
      obtain ⟨run₁, hrun₁, h₁, halong⟩ := exists_reached_feed hQ hbegun h₀ hfeed
      obtain ⟨run₁', hrun₁', hwritten⟩ := onTime_feed hbegun h₀.onTime hfeed
      obtain rfl : run₁ = run₁' := Option.some.inj (hrun₁.symm.trans hrun₁')
      have hempty : lines₀ = #[] ++ lines₀ := Array.empty_append.symm
      rw [hempty, Run.writtenBy_nil, List.nil_append] at hwritten
      obtain ⟨run, hrun, hlast, -, -⟩ := onTime_feedAll hrun₁ hwritten hok
      obtain ⟨hrest, hend⟩ := exists_reached_visits hQ hrun₁ h₁ hok
      refine ⟨bucketAt x.time c.bucketSeconds, ?_, ?_, ?_⟩
      · rw [visits_cons hbegun hfeed]
        exact Run.along_append.mpr ⟨halong, hrest⟩
      · have hfinish : r'.finish.1 = run.drain.1 := by
          unfold Replay.finish
          rw [hrun]
        rw [hfinish, visits_cons hbegun hfeed]
        exact hlast.written_eq
      · rw [visits_cons hbegun hfeed]
        exact .inr hend
    · cases hok

theorem exists_along_visits (hs : c.bucketLength.secs.toNat < 2 ^ 63) (hQ : Keeps kind c Q)
    (hnew : Replay.new kind c = .ok r) {xs : List Record}
    (hbegin : ∀ x ∈ xs.head?, ∀ run, Run.start kind c x.time = .ok run → Q run [])
    {lines : Array FeatureLine} (hok : feedAll #[] r xs = (lines, .ok r')) :
    ∃ first, Along (Reached Q kind c first) [] (r.visits xs) ∧
      (lines ++ r'.finish.1).toList = writtenBy (r.visits xs) := by
  obtain ⟨first, halong, hwritten, -⟩ := exists_reached_finish hs hQ hnew hbegin hok
  exact ⟨first, halong, hwritten⟩

end Replay

/-! ## the lines of a bucket -/

namespace Run
variable {g : Gatherer} {r : Run} {kind : SeriesKind} {c : Config} {first t length : Int}
  {seen vs : List Run} {l : FeatureLine}

/-- the lines that are written when the next bucket is passed -/
theorem lines_sampleNext (r : Run) : r.sampleNext.1 =
    if r.gatherer.available r.next then
      (lengthsEnding r.passNext r.next).flatMap (linesOf r.passNext r.next)
    else [] := by
  unfold sampleNext passNext
  simp only
  split <;> rfl

theorem of_mem_linesOf (h : l ∈ linesOf g t length) :
    l.start = bucketAt t length ∧ l.length = length ∧
      (l.feature, l.values) ∈ g.readouts t length := by
  obtain ⟨x, hx, rfl⟩ := List.mem_map.mp h
  exact ⟨rfl, rfl, (List.mem_filter.mp hx).1⟩

theorem features_nodup (g : Gatherer) : g.features.Nodup := by
  unfold Gatherer.features Config.featuresFor
  split
  · cases g.kind <;> decide
  · exact List.Nodup.filter _ (by decide)

theorem readouts_sublist (g : Gatherer) (t length : Int) :
    ((g.readouts t length).map Prod.fst).Sublist g.features := by
  cases ha : g.counts.get? t length with
  | none =>
    unfold Gatherer.readouts
    rw [ha]
    exact List.nil_sublist _
  | some a =>
    rw [Gatherer.map_fst_readouts ha]
    exact List.filter_sublist

/-- a feature of an interval has one line at most -/
theorem keys_linesOf_nodup (g : Gatherer) (t length : Int) :
    ((linesOf g t length).map FeatureLine.key).Nodup := by
  have hnodup : (((g.readouts t length).filter fun x => !x.2.isEmpty).map Prod.fst).Nodup :=
    ((List.filter_sublist.map _).trans (readouts_sublist g t length)).nodup (features_nodup g)
  refine List.Nodup.of_map (fun k : Int × Int × Feature => k.2.2) ?_
  unfold linesOf
  rw [List.map_map, List.map_map]
  exact hnodup

/-- a line is written once for each time that its length is listed -/
theorem count_key_flatMap (hl : l ∈ linesOf g t l.length) (lengths : List Int) :
    ((lengths.flatMap (linesOf g t)).map FeatureLine.key).count l.key = lengths.count l.length := by
  induction lengths with
  | nil => rfl
  | cons length lengths ih =>
    rw [List.flatMap_cons, List.map_append, List.count_append, ih, List.count_cons, Nat.add_comm]
    congr 1
    by_cases heq : length = l.length
    · subst heq
      rw [if_pos (beq_self_eq_true _)]
      exact List.count_eq_one_of_mem (keys_linesOf_nodup g t _) (List.mem_map_of_mem hl)
    · rw [if_neg (by simpa using heq), List.count_eq_zero]
      intro hkey
      obtain ⟨m, hm, hkey⟩ := List.mem_map.mp hkey
      have hlength := congrArg (fun k => k.2.1) hkey
      exact heq ((of_mem_linesOf hm).2.1.symm.trans hlength)

/-- the intervals of the lines of a bucket end with it -/
theorem OnTime.ending_of_mem {written : List FeatureLine} (h : r.OnTime kind c first seen written)
    (hl : l ∈ r.sampleNext.1) :
    r.gatherer.available r.next = true ∧ l ∈ linesOf r.passNext r.next l.length ∧
      l.length ∈ lengthsEnding r.passNext r.next ∧ l.length ∣ r.next + c.bucketSeconds := by
  have hs := sound_passNext h.sound
  rw [lines_sampleNext] at hl
  split at hl
  next havailable =>
    obtain ⟨length, hlength, hl⟩ := List.mem_flatMap.mp hl
    obtain ⟨-, rfl, -⟩ := of_mem_linesOf hl
    refine ⟨havailable, hl, hlength, ?_⟩
    unfold lengthsEnding at hlength
    rw [hs.length_eq] at hlength
    rcases List.mem_cons.mp hlength with heq | hspan
    · rw [heq]
      exact Int.dvd_add h.aligned (Int.dvd_refl _)
    · exact Int.dvd_of_emod_eq_zero (of_decide_eq_true (List.mem_filter.mp hspan).2)
  · cases hl

/-- the bucket that a line was written with starts where its interval says -/
theorem OnTime.next_of_mem {written : List FeatureLine} (h : r.OnTime kind c first seen written)
    (hl : l ∈ r.sampleNext.1) : r.next = l.start + -c.bucketSeconds % l.length := by
  obtain ⟨-, hl, -, hend⟩ := h.ending_of_mem hl
  have hrest : r.next % l.length = -c.bucketSeconds % l.length := by
    apply Int.emod_eq_emod_iff_emod_sub_eq_zero.mpr
    rw [Int.sub_neg]
    exact Int.emod_eq_zero_of_dvd hend
  rw [(of_mem_linesOf hl).1, ← hrest]
  unfold bucketAt
  omega

/-- the lines of a bucket are written as many times as their lengths are listed -/
theorem OnTime.count_key {written : List FeatureLine} (h : r.OnTime kind c first seen written)
    (hl : l ∈ r.sampleNext.1) : (r.sampleNext.1.map FeatureLine.key).count l.key =
      (c.bucketSeconds :: c.spanSeconds).count l.length := by
  have hs := sound_passNext h.sound
  obtain ⟨havailable, hl, hlength, -⟩ := h.ending_of_mem hl
  rw [lines_sampleNext, if_pos havailable, count_key_flatMap hl]
  unfold lengthsEnding at hlength ⊢
  rw [hs.config_eq, hs.length_eq] at hlength ⊢
  rw [List.count_cons, List.count_cons]
  congr 1
  rcases List.mem_cons.mp hlength with heq | hspan
  · have hnone : l.length ∉ c.spanSeconds := fun hmem =>
      hs.spanSeconds_ne hmem (heq.trans hs.length_eq.symm)
    rw [List.count_eq_zero.mpr hnone, List.count_eq_zero]
    exact fun hmem => hnone (List.mem_filter.mp hmem).1
  · exact List.count_filter (List.mem_filter.mp hspan).2

end Run

/-! ## all lines -/

namespace Replay
variable {r r' : Replay} {kind : SeriesKind} {c : Config} {first : Int} {vs us : List Run}
  {v : Run} {l : FeatureLine} {Q : Run → List Run → Prop}

open Run (Along Keeps Reached writtenBy)

/-- the lines of a replay that takes all records and is finished -/
def output? (r : Replay) (xs : List Record) : Option (List FeatureLine) :=
  match feedAll #[] r xs with
  | (lines, .ok r') => some (lines ++ r'.finish.1).toList
  | (_, .error _) => none

theorem exists_of_output? {xs : List Record} {ls : List FeatureLine} (h : r.output? xs = some ls) :
    ∃ lines r', feedAll #[] r xs = (lines, .ok r') ∧ (lines ++ r'.finish.1).toList = ls := by
  unfold output? at h
  split at h
  next lines r' hok => exact ⟨lines, r', hok, Option.some.inj h⟩
  · cases h

/-- a line is not written with another bucket -/
theorem count_key_eq_zero {written : List FeatureLine} (hv : v.OnTime kind c first vs written)
    (hl : l ∈ v.sampleNext.1)
    (hus : ∀ u ∈ us, u.next ≠ v.next ∧ ∃ seen, u.Reached Q kind c first seen) :
    ((writtenBy us).map FeatureLine.key).count l.key = 0 := by
  rw [List.count_eq_zero]
  intro hkey
  obtain ⟨m, hm, hkey⟩ := List.mem_map.mp hkey
  obtain ⟨u, hu, hm⟩ := List.mem_flatMap.mp hm
  obtain ⟨hne, seen, hreached⟩ := hus u hu
  have hstart := congrArg Prod.fst hkey
  have hlength := congrArg (fun k => k.2.1) hkey
  apply hne
  rw [hreached.onTime.next_of_mem hm, hv.next_of_mem hl]
  exact congrArg₂ (fun start length => start + -c.bucketSeconds % length) hstart hlength

theorem count_key_writtenBy (h : Along (Reached Q kind c first) [] vs) (hl : l ∈ writtenBy vs) :
    ((writtenBy vs).map FeatureLine.key).count l.key =
      (c.bucketSeconds :: c.spanSeconds).count l.length := by
  obtain ⟨v, hv, hlv⟩ := List.mem_flatMap.mp hl
  obtain ⟨before, after, rfl⟩ := List.append_of_mem hv
  have hon := h.of_split.onTime
  have hpos := hon.sound.counts.ring.pos
  obtain ⟨-, hafter, hbefore⟩ := List.pairwise_append.mp h.pairwise_next
  have hzero : ((writtenBy before).map FeatureLine.key).count l.key = 0 := by
    refine count_key_eq_zero (Q := Q) hon hlv fun u hu => ?_
    have hle := hbefore u hu v List.mem_cons_self
    exact ⟨by omega, h.reached (List.mem_append_left _ hu)⟩
  have hzero' : ((writtenBy after).map FeatureLine.key).count l.key = 0 := by
    refine count_key_eq_zero (Q := Q) hon hlv fun u hu => ?_
    have hle := (List.pairwise_cons.mp hafter).1 u hu
    exact ⟨by omega, h.reached (List.mem_append_right _ (List.mem_cons_of_mem _ hu))⟩
  rw [Run.writtenBy_append, Run.writtenBy_cons, List.map_append, List.map_append,
    List.count_append, List.count_append, hzero, hzero', hon.count_key hlv, Nat.add_zero,
    Nat.zero_add]

/-- a line of an interval and a feature is written once for each time that its length is listed, so
each is written once at most if and only if no length with a line is listed twice -/
theorem written_once_for_each_listing (hs : c.bucketLength.secs.toNat < 2 ^ 63)
    (hnew : Replay.new kind c = .ok r) {xs : List Record} {lines : Array FeatureLine}
    (hok : feedAll #[] r xs = (lines, .ok r')) :
    (∀ l ∈ (lines ++ r'.finish.1).toList,
      ((lines ++ r'.finish.1).toList.map FeatureLine.key).count l.key =
        (c.bucketSeconds :: c.spanSeconds).count l.length) ∧
    (((lines ++ r'.finish.1).toList.map FeatureLine.key).Nodup ↔
      ∀ l ∈ (lines ++ r'.finish.1).toList,
        (c.bucketSeconds :: c.spanSeconds).count l.length = 1) := by
  obtain ⟨first, halong, hwritten⟩ :=
    exists_along_visits hs Run.keeps_true hnew (fun _ _ _ _ => trivial) hok
  rw [hwritten]
  have hcount {l : FeatureLine} (hl : l ∈ writtenBy (r.visits xs)) := count_key_writtenBy halong hl
  refine ⟨fun l hl => hcount hl, fun hnodup l hl => ?_, fun honce => ?_⟩
  · rw [← hcount hl]
    exact List.count_eq_one_of_mem hnodup (List.mem_map_of_mem hl)
  · rw [List.nodup_iff_count_eq_one]
    intro key hkey
    obtain ⟨l, hl, rfl⟩ := List.mem_map.mp hkey
    rw [hcount hl, honce l hl]

/-- a length that is listed twice has its lines twice -/
theorem written_twice_if_listed_twice :
    let c : Config :=
      { Config.default with
        bucketLength := .ofSecs 60, multiBucketLengths := [.ofSecs 120, .ofSecs 120] }
    let r : Replay := ⟨.eventRate, c, none⟩
    let xs : List Record := [⟨60, some "alice", some "login", none, [], some 1, none, [], false⟩]
    ∃ lines r', feedAll #[] r xs = (lines, .ok r') ∧
      ((lines ++ r'.finish.1).toList.map FeatureLine.key).count (0, 120, .countByPerson) = 2 ∧
      ¬((lines ++ r'.finish.1).toList.map FeatureLine.key).Nodup := by
  intro c r xs
  have hnew : Replay.new .eventRate c = .ok r := by
    unfold Replay.new
    rw [show c.fault? .eventRate = none by decide]
  have hwritten : r.output? xs = some [⟨60, 60, .countByPerson, .personCounts [(0, 1)]⟩,
      ⟨0, 120, .countByPerson, .personCounts [(0, 1)]⟩,
      ⟨0, 120, .countByPerson, .personCounts [(0, 1)]⟩] := by
    simp only [r, c, xs]
    cbv
  obtain ⟨lines, r', hfeed, hlines⟩ := exists_of_output? hwritten
  obtain ⟨hcount, honce⟩ := written_once_for_each_listing (by decide) hnew hfeed
  rw [hlines] at hcount honce
  refine ⟨lines, r', hfeed, ?_, ?_⟩
  · rw [hlines]
    exact hcount ⟨0, 120, .countByPerson, .personCounts [(0, 1)]⟩ (by simp)
  · rw [hlines, honce]
    exact fun h => absurd (h ⟨0, 120, .countByPerson, .personCounts [(0, 1)]⟩ (by simp)) (by decide)

end Replay

end EventBuckets
