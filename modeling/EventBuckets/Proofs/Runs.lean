import EventBuckets.Gatherer.Queries
import EventBuckets.Proofs.Sound

/-!
# Runs of a gatherer

* `Op`, `Answer`      an operation with its arguments, and what it answers;
* `Gatherer.perform`  carries out an operation;
* `Gatherer.View`     all that can be read of a gatherer, with its checksum and its document;
* `Gatherer.run`, `Gatherer.answers`, `Gatherer.trace`
                      carries out operations in turn; the answers, and each with the view after
                      it;
* `Reachable`         what a run leads to from a new gatherer; such a gatherer is sound;
* `Alike`             two gatherers that differ in their copies of texts and in the room made for
                      ids only: they answer alike for ever (`Alike.trace_eq`).
-/

namespace EventBuckets

/-- an operation of a gatherer -/
inductive Op where
  | add (d : Directory) (e : Event)
  | tick (time : Int)
  | sample (time : Int)
  | skip (time : Int)
  | restart (time : Int)
  | recyclePeople (ids : List Nat)
  | recycleAttributes (ids : List Nat)
  | removePeople (lowest : Nat)
  | removeAttributes (lowest : Nat)
  | release (cutoff : Int)
  | resetBucket (time : Int)
  | clear

/-- what an operation answers -/
inductive Answer where
  | intake (result : Except IntakeError Bool)
  | allowed (isAllowed : Bool)
  | released (n : Nat)
  | done

namespace Gatherer

/-- carries out an operation -/
def perform (g : Gatherer) : Op → Answer × Gatherer
  | .add d e => ((g.add d e).map .intake id)
  | .tick t => ((g.tick t).map .allowed id)
  | .sample t => (.done, g.sample t)
  | .skip t => (.done, g.skip t)
  | .restart t => (.done, g.restart t)
  | .recyclePeople ids => (.done, g.recyclePeople ids)
  | .recycleAttributes ids => (.done, g.recycleAttributes ids)
  | .removePeople lowest => (.done, g.removePeople lowest)
  | .removeAttributes lowest => (.done, g.removeAttributes lowest)
  | .release cutoff => ((g.release cutoff).map .released id)
  | .resetBucket t => ((g.resetBucket t).map .allowed id)
  | .clear => (.done, g.clear)

/-- the gatherer after operations -/
def run (g : Gatherer) (ops : List Op) : Gatherer := ops.foldl (fun g op => (g.perform op).2) g

@[simp] theorem run_nil (g : Gatherer) : g.run [] = g := rfl

@[simp] theorem run_cons (g : Gatherer) (op : Op) (ops : List Op) :
    g.run (op :: ops) = (g.perform op).2.run ops := rfl

theorem run_append (g : Gatherer) (ops ops' : List Op) :
    g.run (ops ++ ops') = (g.run ops).run ops' :=
  List.foldl_append

/-! ## views -/

/-- all that can be read of a gatherer -/
structure View where
  kind : SeriesKind
  config : Config
  start : Int
  oldest : Int
  earliest : Option Int
  features : List Feature
  available : Int → Bool
  firstSample : Int → Int → Int
  pairCounts : Int → List (Pair × Nat)
  personCounts : Int → List (Nat × Nat)
  influences : Int → List (List (Mention × Nat))
  nulls : Int → List Pair
  nullsOnly : Int → Pair → Bool
  readouts : Int → Int → List (Feature × Readout)
  description : String
  texts? : Int → Pair → Option TextSet
  summary? : Int → Pair → Option Summary
  sampleCount? : Nat → Option Binary64
  checksum : UInt64
  document : Document

def view [Hashing] (g : Gatherer) : View where
  kind := g.kind
  config := g.config
  start := g.start
  oldest := g.oldest
  earliest := g.earliest
  features := g.features
  available := g.available
  firstSample := g.firstSample
  pairCounts := g.pairCounts
  personCounts := g.personCounts
  influences := g.influences
  nulls := g.nulls
  nullsOnly := g.nullsOnly
  readouts := g.readouts
  description := g.describe
  texts? := g.series.texts?
  summary? := g.series.summary?
  sampleCount? := g.series.sampleCount?
  checksum := Checksum.checksum g
  document := g.document

/-- the answers to operations in turn -/
def answers (g : Gatherer) : List Op → List Answer
  | [] => []
  | op :: ops => (g.perform op).1 :: (g.perform op).2.answers ops

/-- the answers to operations in turn, each with what can be read afterwards -/
def trace [Hashing] (g : Gatherer) : List Op → List (Answer × View)
  | [] => []
  | op :: ops => ((g.perform op).1, (g.perform op).2.view) :: (g.perform op).2.trace ops

/-! ## what is reached -/

/-- what a new gatherer of a kind and a configuration becomes -/
def Reachable (kind : SeriesKind) (c : Config) (g : Gatherer) : Prop :=
  ∃ time g₀ ops, new kind c time = .ok g₀ ∧ g₀.run ops = g

variable {g h : Gatherer} {kind : SeriesKind} {c : Config}

theorem Reachable.of_new {time : Int} (hnew : new kind c time = .ok g) : Reachable kind c g :=
  ⟨time, g, [], hnew, rfl⟩

theorem Sound.perform (hg : g.Sound kind c) (op : Op) : (g.perform op).2.Sound kind c := by
  cases op with
  | add d e => exact hg.add d e
  | tick t => exact hg.tick t
  | sample t => exact hg.sample t
  | skip t => exact hg.skip t
  | restart t => exact hg.restart t
  | recyclePeople ids => exact hg.recyclePeople ids
  | recycleAttributes ids => exact hg.recycleAttributes ids
  | removePeople lowest => exact hg.removePeople lowest
  | removeAttributes lowest => exact hg.removeAttributes lowest
  | release cutoff => exact hg.release cutoff
  | resetBucket t => exact hg.resetBucket t
  | clear => exact hg.clear

theorem Sound.run (hg : g.Sound kind c) (ops : List Op) : (g.run ops).Sound kind c := by
  induction ops generalizing g with
  | nil => exact hg
  | cons op ops ih => exact ih (hg.perform op)

theorem Reachable.sound (hr : Reachable kind c g) (hs : c.bucketLength.secs.toNat < 2 ^ 63) :
    g.Sound kind c := by
  obtain ⟨time, g₀, ops, hnew, rfl⟩ := hr
  exact (sound_new hs hnew).run ops

/-! ## gatherers that are alike -/

/-- the same gatherer, but for the copies of texts and the room for ids -/
def Alike (g h : Gatherer) : Prop := ∃ pool bounds, h = { g with pool, bounds }

theorem Alike.refl (g : Gatherer) : Alike g g := ⟨g.pool, g.bounds, rfl⟩

theorem Alike.symm (e : Alike g h) : Alike h g := by
  obtain ⟨pool, bounds, rfl⟩ := e
  exact ⟨g.pool, g.bounds, rfl⟩

theorem Alike.trans {k : Gatherer} (e : Alike g h) (e' : Alike h k) : Alike g k := by
  obtain ⟨pool, bounds, rfl⟩ := e
  obtain ⟨pool', bounds', rfl⟩ := e'
  exact ⟨pool', bounds', rfl⟩

/-- gatherers with the same configuration and the same written part are alike -/
theorem alike_of_snapshot (hc : g.config = h.config) (hs : g.snapshot = h.snapshot) : Alike g h := by
  obtain ⟨config, start, earliest, counts, series, pool, bounds⟩ := g
  obtain ⟨config', start', earliest', counts', series', pool', bounds'⟩ := h
  obtain rfl : config = config' := hc
  have hsnapshot := Snapshot.mk.inj hs
  obtain ⟨-, rfl, rfl, rfl, rfl⟩ := hsnapshot
  exact ⟨pool', bounds', rfl⟩

theorem Alike.view_eq [Hashing] (e : Alike g h) : g.view = h.view := by
  obtain ⟨pool, bounds, rfl⟩ := e
  rfl

/-- what opening a bucket neither reads nor changes may be changed before the clock moves or after -/
theorem advance_comm {f : Gatherer → Gatherer} {counting : Bool}
    (hconfig : ∀ g, (f g).config = g.config) (hstart : ∀ g, (f g).start = g.start)
    (hopen : ∀ g start, (f g).openBucket start counting = f (g.openBucket start counting))
    (hset : ∀ g start, { f g with start } = f { g with start }) (g : Gatherer) (t : Int) :
    (f g).advance t counting = f (g.advance t counting) := by
  have hlength : (f g).length = g.length := congrArg Config.bucketSeconds (hconfig g)
  have hlatency : (f g).latency = g.latency := congrArg Config.latencyBuckets (hconfig g)
  have hnext (n : Nat) : (f g).openNext n counting = f (g.openNext n counting) := by
    induction n with
    | zero => rfl
    | succ n ih => rw [openNext_succ, openNext_succ, ih, hopen, hstart, hlength]
  unfold advance
  simp only [hlength, hlatency, hstart, hnext]
  split
  · rfl
  · split
    · rw [hopen, hset]
    · rw [hset]

theorem advance_with (g : Gatherer) (pool : TextPool) (bounds : IdBounds) (t : Int)
    (counting : Bool) :
    ({ g with pool, bounds } : Gatherer).advance t counting =
      { g.advance t counting with pool, bounds } :=
  advance_comm (f := fun g => { g with pool, bounds }) (fun _ => rfl) (fun _ => rfl)
    (fun _ _ => rfl) (fun _ _ => rfl) g t

theorem Alike.advance (e : Alike g h) (t : Int) (counting : Bool) :
    Alike (g.advance t counting) (h.advance t counting) := by
  obtain ⟨pool, bounds, rfl⟩ := e
  exact ⟨pool, bounds, advance_with g pool bounds t counting⟩

theorem Alike.observe (e : Alike g h) (t : Int) : Alike (g.observe t) (h.observe t) := by
  obtain ⟨pool, bounds, rfl⟩ := e
  have hnoted : Alike { g with earliest := some (g.earliest.elim t fun e => min e t) }
      { g with earliest := some (g.earliest.elim t fun e => min e t), pool, bounds } :=
    ⟨pool, bounds, rfl⟩
  exact hnoted.advance t true

theorem Alike.sample (e : Alike g h) (t : Int) : Alike (g.sample t) (h.sample t) := by
  obtain ⟨pool, bounds, rfl⟩ := e
  refine ⟨pool, bounds, ?_⟩
  unfold Gatherer.sample
  exact congrArg (fun k : Gatherer =>
    ({ k with
      counts := k.counts.sample (bucketAt t k.length)
      series := k.series.sample (bucketAt t k.length) } : Gatherer))
    (advance_with g pool bounds (g.lastCall t) true)

theorem Alike.record (e : Alike g h) (x : Event) (t : Int) (p : Pair) :
    Alike (g.record x t p) (h.record x t p) := by
  obtain ⟨pool, bounds, rfl⟩ := e
  unfold Gatherer.record
  simp only
  split
  · exact ⟨pool, bounds, rfl⟩
  · split
    · exact ⟨pool, bounds, rfl⟩
    · exact ⟨_, bounds, rfl⟩

theorem Alike.fate_eq (e : Alike g h) (d : Directory) (x : Event) (t : Int) :
    g.fate d x t = h.fate d x t := by
  obtain ⟨pool, bounds, rfl⟩ := e
  rfl

/-- alike gatherers answer an event alike, and stay alike -/
theorem Alike.add (e : Alike g h) (d : Directory) (x : Event) :
    (g.add d x).1 = (h.add d x).1 ∧ Alike (g.add d x).2 (h.add d x).2 := by
  unfold Gatherer.add
  split
  next => exact ⟨rfl, e⟩
  next t ht =>
    rw [← e.fate_eq]
    split
    next => exact ⟨rfl, e⟩
    next => exact ⟨rfl, e⟩
    next => exact ⟨rfl, e⟩
    next => exact ⟨rfl, e.observe t⟩
    next p hp =>
      have hwide : Alike (g.widen p) (h.widen p) := by
        obtain ⟨pool, bounds, rfl⟩ := e
        exact ⟨pool, bounds.widen p, rfl⟩
      exact ⟨rfl, (hwide.observe t).record x t p⟩

theorem Alike.tick (e : Alike g h) (t : Int) :
    (g.tick t).1 = (h.tick t).1 ∧ Alike (g.tick t).2 (h.tick t).2 := by
  have ho : h.oldest = g.oldest := by
    obtain ⟨pool, bounds, rfl⟩ := e
    rfl
  unfold Gatherer.tick
  rw [ho]
  split
  · exact ⟨rfl, e⟩
  · exact ⟨rfl, e.advance t true⟩

theorem Alike.resetBucket (e : Alike g h) (t : Int) :
    (g.resetBucket t).1 = (h.resetBucket t).1 ∧ Alike (g.resetBucket t).2 (h.resetBucket t).2 := by
  obtain ⟨pool, bounds, rfl⟩ := e
  unfold Gatherer.resetBucket
  simp only
  split
  · exact ⟨rfl, pool, bounds, rfl⟩
  · exact ⟨rfl, pool, bounds, rfl⟩

/-- alike gatherers answer an operation alike, and stay alike -/
theorem Alike.perform (e : Alike g h) (op : Op) :
    (g.perform op).1 = (h.perform op).1 ∧ Alike (g.perform op).2 (h.perform op).2 := by
  cases op with
  | add d x =>
    obtain ⟨hanswer, halike⟩ := e.add d x
    exact ⟨congrArg Answer.intake hanswer, halike⟩
  | tick t =>
    obtain ⟨hanswer, halike⟩ := e.tick t
    exact ⟨congrArg Answer.allowed hanswer, halike⟩
  | sample t => exact ⟨rfl, e.sample t⟩
  | skip t =>
    have hadvance := e.advance (g.lastCall t) false
    obtain ⟨pool, bounds, rfl⟩ := e
    exact ⟨rfl, hadvance⟩
  | resetBucket t =>
    obtain ⟨hanswer, halike⟩ := e.resetBucket t
    exact ⟨congrArg Answer.allowed hanswer, halike⟩
  | restart t | recyclePeople ids | recycleAttributes ids | removePeople lowest
  | removeAttributes lowest | release cutoff | clear =>
    obtain ⟨pool, bounds, rfl⟩ := e
    exact ⟨rfl, _, _, rfl⟩

theorem Alike.run (e : Alike g h) (ops : List Op) : Alike (g.run ops) (h.run ops) := by
  induction ops generalizing g h with
  | nil => exact e
  | cons op ops ih => exact ih (e.perform op).2

/-- no operations tell alike gatherers apart -/
theorem Alike.trace_eq [Hashing] (e : Alike g h) (ops : List Op) : g.trace ops = h.trace ops := by
  induction ops generalizing g h with
  | nil => rfl
  | cons op ops ih =>
    obtain ⟨hanswer, halike⟩ := e.perform op
    simp only [trace, hanswer, halike.view_eq, ih halike]

end Gatherer

end EventBuckets
