import EventBuckets.Proofs.History

/-!
# What runs keep of a series

A gatherer changes its series by the operations on series only.  What these keep holds after every
run, if it holds of the new series.

* `Series.Kept`        a property of series that all operations but sampling keep;
* `Series.Kept.perform`, `Series.Kept.run`
                       an operation of a gatherer keeps it, and if sampling does, every run.
-/

namespace EventBuckets.Series

/-- a property of series that all operations but sampling keep; only finite values are added -/
structure Kept (I : Series → Prop) : Prop where
  startBucket : ∀ {s}, I s → ∀ start counting, I (s.startBucket start counting)
  add : ∀ {s}, I s → ∀ t p {e : Event}, e.values.all Binary64.isFinite = true → I (s.add t p e)
  retainPeople : ∀ {s}, I s → ∀ keeps, I (s.retainPeople keeps)
  retainAttributes : ∀ {s}, I s → ∀ keeps, I (s.retainAttributes keeps)
  emptyBucket : ∀ {s}, I s → ∀ t, I (s.emptyBucket t)
  release : ∀ {s}, I s → ∀ cutoff, I (s.release cutoff).1
  clear : ∀ {s}, I s → I s.clear
  reset : ∀ {s}, I s → ∀ t, I (s.reset t)

namespace Kept
variable {I : Series → Prop} {g : Gatherer}

theorem advance (hI : Kept I) (h : I g.series) (t : Int) (counting : Bool) :
    I (g.advance t counting).series :=
  Gatherer.advance_of_openBucket (P := fun g => I g.series)
    (fun _ start h => hI.startBucket h start counting) (fun _ _ h => h) h t

theorem record (hI : Kept I) (h : I g.series) {e : Event} (t : Int) (p : Pair)
    (hv : e.values.all Binary64.isFinite = true) : I (g.record e t p).series := by
  unfold Gatherer.record
  simp only
  split
  · exact h
  · split
    · exact h
    · exact hI.add h t p hv

theorem observe (hI : Kept I) (h : I g.series) (t : Int) : I (g.observe t).series :=
  hI.advance (g := { g with earliest := some (g.earliest.elim t fun e => min e t) }) h t true

/-- only events with finite values are taken in -/
theorem intake (hI : Kept I) (h : I g.series) (d : Directory) (e : Event) :
    I (g.add d e).2.series := by
  have hadds := Gatherer.adds g d e
  generalize g.add d e = r at hadds
  cases hadds with
  | untimed | refused | late | ignored => exact h
  | @noted t => exact hI.observe h t
  | @taken t p _ _ _ _ hu =>
    have hwide : I (g.widen p).series := h
    exact hI.record (hI.observe hwide t) t p (Bool.and_eq_true_iff.mp hu).2

theorem perform (hI : Kept I) (h : I g.series) {op : Op} (hop : ∀ t, op ≠ .sample t) :
    I (g.perform op).2.series := by
  cases op with
  | add d e => exact hI.intake h d e
  | tick t =>
    show I (g.tick t).2.series
    unfold Gatherer.tick
    split
    · exact h
    · exact hI.advance h t true
  | sample t => exact absurd rfl (hop t)
  | skip t => exact hI.advance h (g.lastCall t) false
  | restart t => exact hI.reset h _
  | recyclePeople ids => exact hI.retainPeople h fun id => id ∉ ids
  | recycleAttributes ids => exact hI.retainAttributes h fun id => id ∉ ids
  | removePeople lowest => exact hI.retainPeople h fun id => id < lowest
  | removeAttributes lowest => exact hI.retainAttributes h fun id => id < lowest
  | release cutoff => exact hI.release h cutoff
  | resetBucket t =>
    show I (g.resetBucket t).2.series
    unfold Gatherer.resetBucket
    split
    · exact hI.emptyBucket h t
    · exact h
  | clear => exact hI.clear h

/-- a property that sampling keeps, too, holds after every run -/
theorem run (hI : Kept I) (hsample : ∀ {s}, I s → ∀ start, I (s.sample start)) (h : I g.series)
    (ops : List Op) : I (g.run ops).series := by
  induction ops generalizing g with
  | nil => exact h
  | cons op ops ih =>
    refine ih ?_
    by_cases hop : ∀ t, op ≠ .sample t
    · exact hI.perform h hop
    · obtain ⟨t, rfl⟩ := by simpa using hop
      exact hsample (hI.advance h (g.lastCall t) true) _

end Kept

end EventBuckets.Series
