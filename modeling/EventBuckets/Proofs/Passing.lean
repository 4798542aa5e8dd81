import EventBuckets.Proofs.Lines

/-!
# What a replay asks of its gatherer

Beside the events that it adds, a replay passes buckets: one that has data by then is sampled and
released, any other one is skipped.  The gatherer is what these operations make of a new one, so they
tell which buckets have been sampled and skipped, and what the window was before and after.

* `Op.passed?`               the bucket that an operation samples or skips;
* `Gatherer.PassesInTime`    operations that sample or skip a bucket have not lost it before, and it
                             is the oldest one then;
* `Run.passing`              the operations that pass the next bucket;
* `Run.Logged`               the operations that a run has carried out;
* `Replay.passes_each_bucket_once`
                             the buckets that a replay samples or skips.
-/

namespace EventBuckets

/-! ## operations -/

namespace Op

/-- the bucket that is sampled or skipped -/
def passed? : Op → Option Int
  | sample t | skip t => some t
  | _ => none

def isSample : Op → Bool
  | sample _ => true
  | _ => false

def isSkip : Op → Bool
  | skip _ => true
  | _ => false

def isAdd : Op → Bool
  | add _ _ => true
  | _ => false

/-- no event that is added passes a bucket -/
theorem filterMap_passed?_filter (ops : List Op) :
    (ops.filter fun op => !op.isAdd).filterMap passed? = ops.filterMap passed? := by
  rw [List.filterMap_filter]
  congr 1
  funext op
  cases op <;> rfl

end Op

namespace Gatherer
variable {g : Gatherer} {ops ops' : List Op}

/-- where operations in turn sample or skip a bucket, it has not left the window before, it is the
oldest one afterwards, and both windows have it then -/
def PassesInTime (g : Gatherer) : List Op → Prop
  | [] => True
  | op :: ops =>
    (∀ start ∈ op.passed?, g.start ≤ start + g.latency * g.length ∧
      (g.perform op).2.oldest = start ∧ (g.perform op).2.Retains start) ∧
    (g.perform op).2.PassesInTime ops

theorem passesInTime_append :
    g.PassesInTime (ops ++ ops') ↔ g.PassesInTime ops ∧ (g.run ops).PassesInTime ops' := by
  induction ops generalizing g with
  | nil => simp [PassesInTime]
  | cons op ops ih => simp [PassesInTime, ih, and_assoc]

theorem passesInTime_of_passed? {op : Op} (h : op.passed? = none) : g.PassesInTime [op] := by
  refine ⟨fun start hstart => ?_, trivial⟩
  rw [h] at hstart
  cases hstart

end Gatherer

/-! ## runs -/

namespace Run
variable {g : Gatherer} {ops : List Op} {r r' : Run} {kind : SeriesKind} {c : Config} {first : Int}
  {seen : List Run} {written : List FeatureLine}

/-- the operations that pass the next bucket -/
def passing (r : Run) : List Op :=
  if r.gatherer.available r.next then [.sample r.next, .release r.next] else [.skip r.next]

theorem filterMap_passing (r : Run) : r.passing.filterMap Op.passed? = [r.next] := by
  unfold passing
  split <;> rfl

theorem filterMap_flatMap_passing (vs : List Run) :
    (vs.flatMap passing).filterMap Op.passed? = vs.map next := by
  induction vs with
  | nil => rfl
  | cons v vs ih =>
    rw [List.flatMap_cons, List.filterMap_append, filterMap_passing, ih]
    rfl

theorem filter_passing (r : Run) : (r.passing.filter fun op => !op.isAdd) = r.passing := by
  unfold passing
  split <;> rfl

theorem InTime.run_passing (h : r.InTime) : r.gatherer.run r.passing = r.sampleNext.2.gatherer := by
  rw [h.handed]
  unfold passing
  split <;> rfl

theorem InTime.passesInTime (h : r.InTime) : r.gatherer.PassesInTime r.passing := by
  have hafter := h.after
  have hretained := h.retained
  unfold passNext at hafter hretained
  unfold passing
  split at hafter
  next havailable =>
    rw [if_pos havailable] at hretained ⊢
    refine ⟨?_, Gatherer.passesInTime_of_passed? rfl⟩
    rintro start ⟨⟩
    exact ⟨h.before, hafter, hretained⟩
  next hskipped =>
    rw [if_neg hskipped] at hretained ⊢
    refine ⟨?_, trivial⟩
    rintro start ⟨⟩
    exact ⟨h.before, hafter, hretained⟩

/-- the operations that a run has carried out since its gatherer was `g`: events have been added,
the given runs have passed their next buckets, and nothing else was done -/
structure Logged (g : Gatherer) (ops : List Op) (r : Run) (seen : List Run) : Prop where
  gatherer_eq : r.gatherer = g.run ops
  others_eq : (ops.filter fun op => !op.isAdd) = seen.flatMap passing
  inTime : g.PassesInTime ops
  sampled_eq : r.tallies.sampled = ops.countP Op.isSample
  skipped_eq : r.tallies.skipped = ops.countP Op.isSkip

theorem Logged.filterMap_passed? (h : Logged g ops r seen) :
    ops.filterMap Op.passed? = seen.map next := by
  rw [← Op.filterMap_passed?_filter, h.others_eq, filterMap_flatMap_passing]

theorem Logged.sampleNext (h : Logged g ops r seen) (hr : r.InTime) :
    Logged g (ops ++ r.passing) r.sampleNext.2 (seen ++ [r]) := by
  refine ⟨?_, ?_, ?_, ?_, ?_⟩
  · rw [Gatherer.run_append, ← h.gatherer_eq, hr.run_passing]
  · rw [List.filter_append, h.others_eq, filter_passing, List.flatMap_append, List.flatMap_singleton]
  · rw [Gatherer.passesInTime_append, ← h.gatherer_eq]
    exact ⟨h.inTime, hr.passesInTime⟩
  · rw [List.countP_append, ← h.sampled_eq]
    unfold Run.sampleNext passing
    simp only
    split <;> rfl
  · rw [List.countP_append, ← h.skipped_eq]
    unfold Run.sampleNext passing
    simp only
    split <;> rfl

theorem Logged.intake (h : Logged g ops r seen) {x : Record} (hok : r.intake x = .ok r') :
    ∃ ops, Logged g ops r' seen := by
  obtain ⟨hsampled, hskipped⟩ := tallies_intake hok
  obtain ⟨-, ⟨hsame, -⟩ | ⟨d, e, -, hadd, -⟩⟩ := intake_spec hok
  · exact ⟨ops, hsame.trans h.gatherer_eq, h.others_eq, h.inTime, hsampled.trans h.sampled_eq,
      hskipped.trans h.skipped_eq⟩
  · refine ⟨ops ++ [.add d e], ?_, ?_, ?_, ?_, ?_⟩
    · rw [hadd, Gatherer.run_append, ← h.gatherer_eq]
      rfl
    · rw [List.filter_append, h.others_eq]
      exact List.append_nil _
    · exact Gatherer.passesInTime_append.mpr ⟨h.inTime, Gatherer.passesInTime_of_passed? rfl⟩
    · rw [List.countP_append, ← h.sampled_eq, hsampled]
      rfl
    · rw [List.countP_append, ← h.skipped_eq, hskipped]
      rfl

theorem keeps_logged (g : Gatherer) : Keeps kind c fun r seen => ∃ ops, Logged g ops r seen where
  sampleNext := by
    rintro r first seen hon ⟨ops, h⟩
    exact ⟨_, h.sampleNext hon.inTime⟩
  noting := by
    rintro r seen ⟨ops, h⟩
    exact ⟨ops, h.gatherer_eq, h.others_eq, h.inTime, h.sampled_eq, h.skipped_eq⟩
  intake := by
    rintro r r' seen x - ⟨ops, h⟩ hok
    exact h.intake hok

theorem logged_start {time : Int} (hg : Gatherer.new kind c time = .ok g)
    (h : Run.start kind c time = .ok r) : Logged g [] r [] := by
  unfold Run.start at h
  rw [hg] at h
  obtain rfl := Except.ok.inj h
  exact ⟨rfl, rfl, trivial, rfl, rfl⟩

end Run

/-! ## replays -/

namespace Replay
variable {r r' : Replay} {kind : SeriesKind} {c : Config}

/-- the operations that make the gatherer of a replay from a new one sample or skip the buckets from
that of the first record on to the one that is current when the records end, one after the other and
each once; none of them has left the window before, and it is the oldest one afterwards -/
theorem passes_each_bucket_once (hs : c.bucketLength.secs.toNat < 2 ^ 63)
    (hnew : Replay.new kind c = .ok r) {x : Record} {xs : List Record} {lines : Array FeatureLine}
    (hok : feedAll #[] r (x :: xs) = (lines, .ok r')) :
    ∃ run last g ops, r'.run = some run ∧ r'.finish.2.run = some last ∧
      Gatherer.new kind c x.time = .ok g ∧ last.Logged g ops (r.visits (x :: xs)) ∧
      bucketAt x.time c.bucketSeconds ≤ run.gatherer.start ∧
      ops.filterMap Op.passed? = gridFrom (bucketAt x.time c.bucketSeconds) c.bucketSeconds
        ((run.gatherer.start - bucketAt x.time c.bucketSeconds) / c.bucketSeconds + 1).toNat ∧
      ((r'.finish.2.tallies.sampled + r'.finish.2.tallies.skipped : Nat) : Int) =
        (run.gatherer.start - bucketAt x.time c.bucketSeconds) / c.bucketSeconds + 1 ∧
      (∀ v ∈ r.visits (x :: xs), v.InTime) ∧
      (lines ++ r'.finish.1).toList = (r.visits (x :: xs)).flatMap fun v => v.sampleNext.1 := by
  obtain ⟨run, hrun, hle, hgrid, htallies, hinTime, hlines⟩ :=
    visits_each_bucket_once hs hnew hok
  obtain ⟨g, hg⟩ : ∃ g, Gatherer.new kind c x.time = .ok g :=
    ⟨_, Gatherer.new_eq (of_new hnew).1 x.time⟩
  have hbegin : ∀ y ∈ (x :: xs).head?, ∀ run, Run.start kind c y.time = .ok run →
      ∃ ops, Run.Logged g ops run [] := by
    rintro y ⟨⟩ run hstart
    exact ⟨[], Run.logged_start hg hstart⟩
  obtain ⟨first, -, -, hend⟩ := exists_reached_finish hs (Run.keeps_logged g) hnew hbegin hok
  rcases hend with ⟨hnone, -⟩ | ⟨last, hlast, hreached⟩
  · unfold finish at hnone
    rw [hrun] at hnone
    cases hnone
  · obtain ⟨ops, hlogged⟩ := hreached.kept
    exact ⟨run, last, g, ops, hrun, hlast, hg, hlogged, hle,
      hlogged.filterMap_passed?.trans hgrid, htallies, hinTime, hlines⟩

/-- the second record goes to a bucket before the first one, the third one is late, and the last one
leaves seven buckets behind -/
theorem passes_each_bucket_before_epoch :
    let c : Config := { Config.default with bucketLength := .ofSecs 60, latencyBuckets := 1 }
    let r : Replay := ⟨.eventRate, c, none⟩
    let xs : List Record := [-130, -200, -400, 250].map fun t =>
      ⟨t, some "alice", some "login", none, [], some 1, none, [], false⟩
    ∃ lines r' run last g ops, feedAll #[] r xs = (lines, .ok r') ∧ r'.run = some run ∧
      r'.finish.2.run = some last ∧ Gatherer.new .eventRate c (-130) = .ok g ∧
      last.Logged g ops (r.visits xs) ∧ run.gatherer.start = 240 ∧
      ops.filterMap Op.passed? = [-180, -120, -60, 0, 60, 120, 180, 240] ∧
      r'.finish.2.tallies.sampled + r'.finish.2.tallies.skipped = 8 := by
  intro c r xs
  have hnew : Replay.new .eventRate c = .ok r := by
    unfold Replay.new
    rw [show c.fault? .eventRate = none by decide]
  obtain ⟨r', hr', hclock⟩ : ∃ r', (feedAll #[] r xs).2 = .ok r' ∧
      r'.gatherer?.map Gatherer.start = some 240 := by
    have hok : ((feedAll #[] r xs).2.toOption.bind Replay.gatherer?).map Gatherer.start =
        some 240 := by
      simp only [r, c, xs]
      cbv
    cases hend : (feedAll #[] r xs).2 with
    | ok r' =>
      rw [hend] at hok
      exact ⟨r', rfl, hok⟩
    | error e =>
      rw [hend] at hok
      cases hok
  have hfeed : feedAll #[] r xs = ((feedAll #[] r xs).1, .ok r') := by
    rw [← hr']
  obtain ⟨run, last, g, ops, hrun, hlast, hg, hlogged, -, hpassed, htallies, -⟩ :=
    passes_each_bucket_once (by decide) hnew hfeed
  have hstart : run.gatherer.start = 240 := by
    unfold gatherer? at hclock
    rw [hrun] at hclock
    exact Option.some.inj hclock
  rw [hstart] at hpassed htallies
  exact ⟨_, r', run, last, g, ops, hfeed, hrun, hlast, hg, hlogged, hstart,
    hpassed.trans (by decide), Nat.cast_injective (htallies.trans (by decide))⟩

end Replay

end EventBuckets
