import EventBuckets.Checksum.Folded
import EventBuckets.Proofs.History

/-!
# The order of arrival

Records that are in time for the window go into their buckets in any order with the same result.

* `Aggregates.take_comm`, `DistinctTexts.take_comm`
                          a bucket takes two records in either order;
* `Ring.put_comm`         so does a ring, which rolls forward to the bucket of each of them;
* `Gatherer.put`          what an event in time does to a gatherer of occurrences;
* `Gatherer.change?`      which of this an event does, if it does anything;
* `putAll_perm`           changes may come in any order;
* `addAll_perm`           so may events, each of which gets the same answer.
-/

set_option linter.unusedSectionVars false

namespace EventBuckets

/-! ## buckets -/

theorem addTo_comm {κ : Type} [Ord κ] [Std.TransOrd κ] [Std.LawfulEqOrd κ] [DecidableEq κ]
    (m : Std.ExtTreeMap κ Nat compare) (k j : κ) (a b : Nat) :
    addTo (addTo m k a) j b = addTo (addTo m j b) k a := by
  apply Std.ExtTreeMap.ext_getElem?
  intro i
  simp only [getElem?_addTo]
  by_cases hk : k = i
  · by_cases hj : j = i
    · rw [if_pos hk, if_pos hj, if_pos hj, if_pos hk, Option.getD_some, Option.getD_some,
        Nat.add_right_comm]
    · rw [if_neg hj, if_neg hj, if_pos hk]
  · rw [if_neg hk, if_neg hk]

theorem addPositive_comm (m : PairMap Nat) (p q : Pair) (a b : Nat) :
    addPositive (addPositive m p a) q b = addPositive (addPositive m q b) p a := by
  unfold addPositive
  split
  · split
    · exact addTo_comm m p q a b
    · rfl
  · rfl

namespace Aggregates

theorem countInfluence_comm (f : InfluenceCounts) (p q : Pair) (i j : Option String) (a b : Nat) :
    countInfluence (countInfluence f p i a) q j b = countInfluence (countInfluence f q j b) p i a := by
  unfold countInfluence
  cases i with
  | none => rfl
  | some text =>
    cases j with
    | none => rfl
    | some other =>
      simp only
      split
      · rfl
      · split
        · rfl
        · exact addTo_comm f ⟨p, text⟩ ⟨q, other⟩ a b

theorem addToFields_comm (p q : Pair) (a b : Nat) (fields : List InfluenceCounts)
    (is js : List (Option String)) :
    addToFields q b (addToFields p a fields is) js =
      addToFields p a (addToFields q b fields js) is := by
  induction is generalizing fields js with
  | nil => simp only [addToFields]
  | cons i is ih =>
    cases js with
    | nil => simp only [addToFields]
    | cons j js =>
      cases fields with
      | nil => simp only [addToFields, ih, countInfluence_comm ∅ p q]
      | cons f fields => simp only [addToFields, ih, countInfluence_comm f p q]

/-- a bucket takes two records in either order -/
theorem take_comm (a : Aggregates) (x y : Recorded) : (a.take x).take y = (a.take y).take x := by
  unfold take markNull countPair countInfluences
  by_cases hx : x.event.isNull = true
  · by_cases hy : y.event.isNull = true
    · simp only [hx, hy, if_true]
      congr 1
      apply Std.ExtTreeSet.ext_mem
      intro p
      simp only [Std.ExtTreeSet.mem_insert]
      exact or_left_comm
    · simp only [hx, hy, if_true, if_false, Bool.false_eq_true]
  · by_cases hy : y.event.isNull = true
    · simp only [hx, hy, if_true, if_false, Bool.false_eq_true]
    · simp only [hx, hy, if_false, Bool.false_eq_true]
      rw [addPositive_comm, addToFields_comm]

end Aggregates

namespace DistinctTexts

theorem insert_comm (d : DistinctTexts) (p q : Pair) (text other : String) :
    (d.insert p text).insert q other = (d.insert q other).insert p text := by
  unfold insert
  congr 1
  apply Std.ExtTreeMap.ext_getElem?
  intro k
  simp only [Std.ExtTreeMap.getElem?_alter, Std.LawfulEqOrd.compare_eq_iff_eq]
  by_cases hp : p = k
  · subst hp
    by_cases hq : q = p
    · subst hq
      simp only [if_true, Option.getD_some, Option.some.injEq]
      apply Std.ExtTreeSet.ext_mem
      intro t
      simp only [Std.ExtTreeSet.mem_insert]
      exact or_left_comm
    · simp only [hq, Ne.symm hq, if_true, if_false]
  · simp only [hp, if_false]
    by_cases hq : q = k
    · subst hq
      simp only [hp, if_true, if_false]
    · simp only [hq, if_false]

theorem take_comm (d : DistinctTexts) (x y : Recorded) : (d.take x).take y = (d.take y).take x := by
  unfold take
  split
  · rfl
  · split
    · split
      · rfl
      · split
        · exact insert_comm d _ _ _ _
        · rfl
    · rfl

end DistinctTexts

/-! ## rings -/

namespace Ring
variable {α : Type} {r : Ring α} {f f' : α → α}

theorem modify_modify_comm (h : r.Sound) (s t : Int) (hf : ∀ x, f' (f x) = f (f' x)) :
    (r.modify s f).modify t f' = (r.modify t f').modify s f := by
  refine ext_get? ((h.modify s f).modify t f') ((h.modify t f').modify s f) (by simp) (by simp)
    (by simp) fun u _ => ?_
  rw [get?_modify (h.modify s f), get?_modify h, get?_modify (h.modify t f'), get?_modify h]
  simp only [length_modify]
  by_cases hs : bucketAt u r.length = bucketAt s r.length
  · by_cases ht : bucketAt u r.length = bucketAt t r.length
    · rw [if_pos hs, if_pos ht, if_pos hs, if_pos ht, Option.map_map, Option.map_map]
      exact congrArg (fun g => Option.map g (r.get? u)) (funext hf)
    · rw [if_neg ht, if_neg ht]
  · rw [if_neg hs, if_neg hs]

variable [EmptyCollection α]

theorem roll_bucketAt (r : Ring α) (t : Int) : r.roll (bucketAt t r.length) = r.roll t := by
  unfold roll push
  simp only [bucketAt_bucketAt]

/-- a bucket that is open already may be changed before or after the ring rolls forward -/
theorem roll_modify (h : r.Sound) {s : Int} (hs : bucketAt s r.length ≤ r.newest) (t : Int) :
    (r.modify s f).roll t = (r.roll t).modify s f := by
  have h' := h.modify s f
  have hn : ((r.modify s f).roll t).newest = ((r.roll t).modify s f).newest := by
    rw [newest_roll h', newest_modify, newest_modify, newest_roll h, length_modify]
  refine ext_get? (h'.roll t) ((h.roll t).modify s f) ?_ ?_ hn fun u hu => ?_
  · rw [length_roll h', length_modify, length_modify, length_roll h]
  · rw [capacity_roll h', capacity_modify, capacity_modify, capacity_roll h]
  · have hu' : (r.roll t).contains u = true := by
      rw [contains_roll h', newest_modify, length_modify, capacity_modify] at hu
      rwa [contains_roll h]
    rw [get?_roll h' t u hu, get?_modify h, get?_modify (h.roll t), get?_roll h t u hu',
      length_modify, newest_modify, length_roll h]
    by_cases hold : bucketAt u r.length ≤ r.newest
    · rw [if_pos hold, if_pos hold]
    · rw [if_neg hold, if_neg hold, if_neg (by omega)]

theorem roll_comm (h : r.Sound) (s t : Int) : (r.roll s).roll t = (r.roll t).roll s := by
  have one (s t : Int) (hst : bucketAt s r.length ≤ bucketAt t r.length) :
      (r.roll s).roll t = (r.roll t).roll s := by
    rw [roll_roll h hst]
    refine (roll_of_le ?_).symm
    rw [length_roll h, newest_roll h]
    exact hst.trans (le_max_right _ _)
  rcases le_total (bucketAt s r.length) (bucketAt t r.length) with hst | hst
  · exact one s t hst
  · exact (one t s hst).symm

/-- rolls forward to the bucket that holds `time`, and changes it -/
def put (r : Ring α) (time : Int) (f : α → α) : Ring α := (r.roll time).modify time f

theorem put_comm (h : r.Sound) (s t : Int) (hf : ∀ x, f' (f x) = f (f' x)) :
    (r.put s f).put t f' = (r.put t f').put s f := by
  have open_roll (s : Int) : bucketAt s (r.roll s).length ≤ (r.roll s).newest := by
    rw [length_roll h, newest_roll h]
    exact le_max_right _ _
  unfold put
  rw [roll_modify (h.roll s) (open_roll s), roll_modify (h.roll t) (open_roll t), roll_comm h s t]
  exact modify_modify_comm ((h.roll t).roll s) s t hf

end Ring

/-! ## gatherers of occurrences -/

/-- rolls the ring forward to the bucket that holds `time`, and changes it -/
def Window.put {α : Type} [PairData α] (w : Window α) (time : Int) (f : α → α) : Window α :=
  { w with ring := w.ring.put time f }

theorem Window.put_comm {α : Type} [PairData α] {w : Window α} {c : Config} {start : Int}
    (h : w.Fits c start) (s t : Int) {f f' : α → α} (hf : ∀ x, f' (f x) = f (f' x)) :
    (w.put s f).put t f' = (w.put t f').put s f :=
  congrArg (fun r => ({ w with ring := r } : Window α)) (Ring.put_comm h.ring.sound s t hf)

/-- rolling forward and changing is done by opening a bucket and changing it later -/
theorem Window.put_eq {α : Type} [PairData α] {w : Window α} {c : Config} {start : Int}
    (h : w.Fits c start) (t : Int) (f : α → α) :
    w.put t f = (w.startBucket (bucketAt t c.bucketSeconds)).modify t f := by
  have hroll : w.ring.roll (bucketAt t c.bucketSeconds) = w.ring.roll t := by
    rw [← h.ring.length_eq]
    exact Ring.roll_bucketAt w.ring t
  show w.put t f = { w with ring := (w.ring.roll (bucketAt t c.bucketSeconds)).modify t f }
  rw [hroll]
  rfl

theorem Window.Fits.put {α : Type} [PairData α] {w : Window α} {c : Config} {start : Int}
    (h : w.Fits c start) (t : Int) (f : α → α) :
    (w.put t f).Fits c (max start (bucketAt t c.bucketSeconds)) :=
  ⟨(h.ring.roll t).modify t f, h.spans⟩

/-- what an event does: it moves the clock to its time, and its record goes into its bucket -/
structure Change where
  time : Int
  record : Option Recorded

namespace Change

def onCounts (x : Change) (bucket : Aggregates) : Aggregates :=
  x.record.elim bucket bucket.take

def onTexts (x : Change) (bucket : DistinctTexts) : DistinctTexts :=
  x.record.elim bucket bucket.take

theorem onCounts_comm (x y : Change) (bucket : Aggregates) :
    y.onCounts (x.onCounts bucket) = x.onCounts (y.onCounts bucket) := by
  unfold onCounts
  cases x.record with
  | none => rfl
  | some a =>
    cases y.record with
    | none => rfl
    | some b => exact bucket.take_comm a b

theorem onTexts_comm (x y : Change) (bucket : DistinctTexts) :
    y.onTexts (x.onTexts bucket) = x.onTexts (y.onTexts bucket) := by
  unfold onTexts
  cases x.record with
  | none => rfl
  | some a =>
    cases y.record with
    | none => rfl
    | some b => exact bucket.take_comm a b

end Change

/-- a change of occurrences; measurements stay as they are -/
def Series.put (s : Series) (x : Change) : Series :=
  match s with
  | occurrences s => occurrences ⟨s.window.put x.time x.onTexts⟩
  | measured s => measured s

namespace Gatherer

/-- carries out a change -/
def put (g : Gatherer) (x : Change) : Gatherer :=
  { g with
    start := max g.start (bucketAt x.time g.length)
    earliest := some (g.earliest.elim x.time fun e => min e x.time)
    counts := g.counts.put x.time x.onCounts
    series := g.series.put x }

variable {g h : Gatherer} {c : Config}

theorem Sound.put (hg : g.Sound .eventRate c) (x : Change) : (g.put x).Sound .eventRate c := by
  have hstart : (g.put x).start = max g.start (bucketAt x.time c.bucketSeconds) := by
    rw [← hg.length_eq]
    rfl
  refine ⟨hg.config_eq, hg.valid, ?_, ?_⟩
  · rw [hstart]
    exact hg.counts.put x.time x.onCounts
  · rw [hstart]
    obtain ⟨o, ho, window⟩ := hg.series.exists_occurrences
    show (g.series.put x).Fits c _ .eventRate
    rw [ho]
    exact .occurrences (window.put x.time x.onTexts)

theorem Alike.put (e : Alike g h) (x : Change) : Alike (g.put x) (h.put x) := by
  obtain ⟨pool, bounds, rfl⟩ := e
  exact ⟨pool, bounds, rfl⟩

/-- two changes may come in either order -/
theorem put_comm (hg : g.Sound .eventRate c) (x y : Change) :
    (g.put x).put y = (g.put y).put x := by
  have hcounts := Window.put_comm hg.counts x.time y.time (x.onCounts_comm y)
  have hseries : (g.series.put x).put y = (g.series.put y).put x := by
    obtain ⟨o, ho, window⟩ := hg.series.exists_occurrences
    rw [ho]
    exact congrArg (fun w => Series.occurrences ⟨w⟩)
      (Window.put_comm window x.time y.time (x.onTexts_comm y))
  have hstart : max (max g.start (bucketAt x.time g.length)) (bucketAt y.time g.length) =
      max (max g.start (bucketAt y.time g.length)) (bucketAt x.time g.length) :=
    max_right_comm _ _ _
  have hearliest : some (min (g.earliest.elim x.time fun e => min e x.time) y.time) =
      some (min (g.earliest.elim y.time fun e => min e y.time) x.time) := by
    cases g.earliest with
    | none => exact congrArg some (min_comm _ _)
    | some e => exact congrArg some (min_right_comm _ _ _)
  show ({ g with
      start := max (max g.start (bucketAt x.time g.length)) (bucketAt y.time g.length)
      earliest := some (min (g.earliest.elim x.time fun e => min e x.time) y.time)
      counts := (g.counts.put x.time x.onCounts).put y.time y.onCounts
      series := (g.series.put x).put y } : Gatherer) = _
  rw [hcounts, hseries, hstart, hearliest]
  rfl

/-- carries out changes in turn -/
def putAll (g : Gatherer) (xs : List Change) : Gatherer := xs.foldl put g

theorem Alike.putAll (e : Alike g h) (xs : List Change) : Alike (g.putAll xs) (h.putAll xs) := by
  induction xs generalizing g h with
  | nil => exact e
  | cons x xs ih => exact ih (e.put x)

/-- changes may come in any order -/
theorem putAll_perm {xs ys : List Change} (hp : xs.Perm ys) (hg : g.Sound .eventRate c) :
    g.putAll xs = g.putAll ys := by
  induction hp generalizing g with
  | nil => rfl
  | cons x _ ih => exact ih (hg.put x)
  | swap x y xs => exact congrArg (fun k => putAll k xs) (put_comm hg y x)
  | trans _ _ ih ih' => exact (ih hg).trans (ih' hg)

/-! ## events -/

/-- the change that an event in time makes, if it makes one -/
def change? (g : Gatherer) (d : Directory) (e : Event) : Option Change :=
  e.time.bind fun t =>
    match g.fate d e t with
    | .ok .clockOnly => some ⟨t, none⟩
    | .ok (.taken p) => some ⟨t, e.record? t p⟩
    | _ => none

/-- a change is of the time of its event, as is its record, which counts -/
theorem of_change? {d : Directory} {e : Event} {x : Change} (h : g.change? d e = some x) :
    e.time = some x.time ∧ ∀ y ∈ x.record, y.time = x.time ∧ 0 < y.count := by
  obtain ⟨t, ht, hx⟩ := Option.bind_eq_some_iff.mp h
  rw [ht]
  split at hx
  next =>
    obtain rfl := Option.some.inj hx
    exact ⟨rfl, fun y hy => by cases hy⟩
  next p hf =>
    obtain rfl := Option.some.inj hx
    refine ⟨rfl, fun y hy => ?_⟩
    obtain ⟨htime, -, -, -, hpos⟩ := Event.of_record? hy
    exact ⟨htime, hpos⟩
  next => cases hx

/-- the record that an event leaves behind is that of its change -/
theorem recorded?_eq (g : Gatherer) (d : Directory) (e : Event) :
    g.recorded? d e = (g.change? d e).bind Change.record := by
  have hadds := adds g d e
  unfold recorded? change?
  generalize g.add d e = r at hadds
  cases hadds with
  | untimed ht =>
    rw [ht]
    rfl
  | refused ht hf =>
    rw [ht, Option.bind_some, hf]
    rfl
  | late ht hf =>
    rw [ht, Option.bind_some, hf]
    rfl
  | ignored ht hf hp hu =>
    rw [ht, Option.bind_some, hf, hp]
    exact if_neg (Bool.eq_false_iff.mp hu)
  | noted ht hf hp =>
    rw [ht, Option.bind_some, hf, hp]
    rfl
  | taken ht hf _ hp hu =>
    rw [ht, Option.bind_some, hf, hp]
    exact if_pos hu

/-- noting a time and moving the clock to it is a change without a record -/
theorem observe_eq (hg : g.Sound .eventRate c) (t : Int) : g.observe t = g.put ⟨t, none⟩ := by
  have hnoted : Sound { g with earliest := some (g.earliest.elim t fun e => min e t) }
      .eventRate c := ⟨hg.config_eq, hg.valid, hg.counts, hg.series⟩
  obtain ⟨x, -, e⟩ := advance_eq hnoted t true
  have hcounts : g.counts.startBucket (bucketAt t g.length) =
      g.counts.put t fun bucket => bucket := by
    rw [Window.put_eq hg.counts, ← hg.length_eq, Window.modify_id (hg.counts.startBucket _)]
  have hseries : (g.series.startBucket (bucketAt t g.length) false).withSamples x =
      g.series.put ⟨t, none⟩ := by
    obtain ⟨o, ho, window⟩ := hg.series.exists_occurrences
    have hw := Window.put_eq window t fun bucket => bucket
    rw [Window.modify_id (window.startBucket _)] at hw
    rw [hg.length_eq, ho]
    exact congrArg (fun w => Series.occurrences ⟨w⟩) hw.symm
  unfold observe
  rw [e]
  show ({ g with
      start := max g.start (bucketAt t g.length)
      earliest := some (g.earliest.elim t fun e => min e t)
      counts := g.counts.startBucket (bucketAt t g.length)
      series := (g.series.startBucket (bucketAt t g.length) false).withSamples x } : Gatherer) = _
  rw [hcounts, hseries]
  rfl

/-- taking a record after its time was noted is a change with the record -/
theorem taking_put (hg : g.Sound .eventRate c) (x : Recorded) :
    (g.put ⟨x.time, none⟩).taking x = g.put ⟨x.time, some x⟩ := by
  have again {α : Type} [PairData α] {w : Window α} {start : Int} (h : w.Fits c start)
      (f : α → α) : (w.put x.time fun bucket => bucket).modify x.time f = w.put x.time f := by
    rw [Window.put_eq h, Window.put_eq h, Window.modify_id (h.startBucket _)]
  have hcounts := again hg.counts fun bucket => bucket.take x
  have hseries : (g.series.put ⟨x.time, none⟩).taking x = g.series.put ⟨x.time, some x⟩ := by
    obtain ⟨o, ho, window⟩ := hg.series.exists_occurrences
    rw [ho]
    apply (Series.taking_occurrences (window.put x.time _) x).trans
    exact congrArg (fun w => Series.occurrences ⟨w⟩) (again window fun bucket => bucket.take x)
  show ({ g.put ⟨x.time, none⟩ with
      counts := (g.counts.put x.time fun bucket => bucket).modify x.time fun bucket => bucket.take x
      series := (g.series.put ⟨x.time, none⟩).taking x } : Gatherer) = _
  rw [hcounts, hseries]
  rfl

/-- an event that is taken in makes its change, and nothing else changes a gatherer -/
theorem add_alike (hg : g.Sound .eventRate c) (d : Directory) (e : Event) :
    Alike (g.add d e).2 (g.putAll (g.change? d e).toList) := by
  have hadds := adds g d e
  unfold change?
  generalize g.add d e = r at hadds
  cases hadds with
  | untimed ht =>
    rw [ht]
    exact Alike.refl g
  | refused ht hf =>
    rw [ht, Option.bind_some, hf]
    exact Alike.refl g
  | late ht hf =>
    rw [ht, Option.bind_some, hf]
    exact Alike.refl g
  | ignored ht hf =>
    rw [ht, Option.bind_some, hf]
    exact Alike.refl g
  | @noted t ht hf =>
    rw [ht, Option.bind_some, hf]
    show Alike (g.observe t) (g.put ⟨t, none⟩)
    rw [observe_eq hg]
    exact Alike.refl _
  | @taken t p ht hf hin =>
    have hwide : Alike (g.widen p) g := ⟨g.pool, g.bounds, rfl⟩
    rw [ht, Option.bind_some, hf]
    apply (record_alike e p (contains_observe (hg.widen p) hin)).trans
    show Alike _ (g.put ⟨t, e.record? t p⟩)
    rw [observe_eq (hg.widen p)]
    cases hr : e.record? t p with
    | none => exact hwide.put ⟨t, none⟩
    | some x =>
      obtain rfl : x.time = t := (Event.of_record? hr).1
      show Alike (((g.widen p).put ⟨x.time, none⟩).taking x) (g.put ⟨x.time, some x⟩)
      rw [taking_put (hg.widen p)]
      exact hwide.put ⟨x.time, some x⟩

/-- a bucket start that an event neither comes after nor falls behind -/
def Reaches (c : Config) (latest : Int) (e : Event) : Prop :=
  ∀ t ∈ e.time, bucketAt t c.bucketSeconds ≤ latest ∧
    latest - c.latencyBuckets * c.bucketSeconds ≤ t

variable {latest : Int} {e : Event} {es es' : List Event}

theorem oldest_le_of_reaches (hg : g.Sound .eventRate c) (hl : g.start ≤ latest)
    (he : Reaches c latest e) {t : Int} (ht : e.time = some t) : g.oldest ≤ t := by
  have := (he t ht).2
  unfold oldest
  rw [hg.latency_eq, hg.length_eq]
  omega

/-- gatherers that an event is in time for judge it alike -/
theorem fate_eq_of_reaches (hg : g.Sound .eventRate c) (hh : h.Sound .eventRate c)
    (hgl : g.start ≤ latest) (hhl : h.start ≤ latest) (he : Reaches c latest e) {t : Int}
    (ht : e.time = some t) (d : Directory) : h.fate d e t = g.fate d e t := by
  unfold fate
  rw [if_neg (Int.not_lt.mpr (oldest_le_of_reaches hg hgl he ht)),
    if_neg (Int.not_lt.mpr (oldest_le_of_reaches hh hhl he ht)), hg.config_eq, hh.config_eq]

/-- what is answered to an event of a fate -/
def answerTo : Except IntakeError Fate → Except IntakeError Bool
  | .error err => .error err
  | .ok .late => .ok false
  | .ok _ => .ok true

theorem answer_add (g : Gatherer) (d : Directory) (e : Event) : (g.add d e).1 =
    e.time.elim (.error .missingTime) fun t => answerTo (g.fate d e t) := by
  unfold Gatherer.add
  cases e.time with
  | none => rfl
  | some t =>
    simp only [Option.elim_some]
    split <;> simp only [answerTo, *]

theorem add_eq_of_reaches (hg : g.Sound .eventRate c) (hh : h.Sound .eventRate c)
    (hgl : g.start ≤ latest) (hhl : h.start ≤ latest) (he : Reaches c latest e) (d : Directory) :
    (h.add d e).1 = (g.add d e).1 ∧ h.change? d e = g.change? d e := by
  rw [answer_add, answer_add]
  unfold change?
  cases ht : e.time with
  | none =>
    rw [Option.elim_none, Option.elim_none, Option.bind_none, Option.bind_none]
    exact ⟨rfl, rfl⟩
  | some t =>
    rw [Option.elim_some, Option.elim_some, Option.bind_some, Option.bind_some,
      fate_eq_of_reaches hg hh hgl hhl he ht]
    exact ⟨rfl, rfl⟩

/-- an event that is in time is not answered as a late one -/
theorem add_ne_late (hg : g.Sound .eventRate c) (hl : g.start ≤ latest) (he : Reaches c latest e)
    (d : Directory) : (g.add d e).1 ≠ .ok false := by
  have hadds := adds g d e
  intro hlate
  generalize g.add d e = r at hadds hlate
  cases hadds with
  | untimed => cases hlate
  | refused => cases hlate
  | late ht _ hlt => exact absurd (oldest_le_of_reaches hg hl he ht) (Int.not_le.mpr hlt)
  | ignored => cases hlate
  | noted => cases hlate
  | taken => cases hlate

theorem start_add_le (hg : g.Sound .eventRate c) (hl : g.start ≤ latest) (he : Reaches c latest e)
    (d : Directory) : (g.add d e).2.start ≤ latest := by
  have hstart : (g.add d e).2.start = (g.putAll (g.change? d e).toList).start := by
    obtain ⟨pool, bounds, hput⟩ := add_alike hg d e
    rw [hput]
  rw [hstart]
  cases hx : g.change? d e with
  | none => exact hl
  | some x =>
    obtain ⟨htime, -⟩ := of_change? hx
    show max g.start (bucketAt x.time g.length) ≤ latest
    rw [hg.length_eq]
    exact max_le hl (he x.time htime).1

/-- adds events in turn, and collects the answers -/
def addAll (g : Gatherer) (d : Directory) : List Event → List (Except IntakeError Bool) × Gatherer
  | [] => ([], g)
  | e :: es =>
    (((g.add d e).1 :: ((g.add d e).2.addAll d es).1), ((g.add d e).2.addAll d es).2)

/-- events in time get the answers that each of them gets first, and make the changes that each of
them makes first -/
theorem addAll_eq (hg : g.Sound .eventRate c) (hh : h.Sound .eventRate c) (hgl : g.start ≤ latest)
    (hhl : h.start ≤ latest) (hes : ∀ e ∈ es, Reaches c latest e) (d : Directory) :
    (h.addAll d es).1 = es.map (fun e => (g.add d e).1) ∧
      Alike (h.addAll d es).2 (h.putAll (es.filterMap (g.change? d))) := by
  induction es generalizing h with
  | nil => exact ⟨rfl, Alike.refl h⟩
  | cons e es ih =>
    have he := hes e List.mem_cons_self
    obtain ⟨hanswer, hchange⟩ := add_eq_of_reaches hg hh hgl hhl he d
    obtain ⟨hanswers, halike⟩ := ih (hh.add d e) (start_add_le hh hhl he d)
      fun x hx => hes x (List.mem_cons_of_mem _ hx)
    refine ⟨congrArg₂ List.cons hanswer hanswers, halike.trans ?_⟩
    have hfirst := add_alike hh d e
    rw [hchange] at hfirst
    apply (hfirst.putAll _).trans
    rw [List.filterMap_cons]
    cases g.change? d e with
    | none => exact Alike.refl _
    | some x => exact Alike.refl _

/-- the latest of a start and the times of events -/
def latestOf (start : Int) (es : List Event) : Int := (es.filterMap Event.time).foldl max start

theorem le_latestOf (start : Int) (es : List Event) :
    start ≤ latestOf start es ∧ ∀ e ∈ es, ∀ t ∈ e.time, t ≤ latestOf start es := by
  have go (ts : List Int) (start : Int) :
      start ≤ ts.foldl max start ∧ ∀ t ∈ ts, t ≤ ts.foldl max start := by
    induction ts generalizing start with
    | nil => exact ⟨le_rfl, fun t ht => (List.not_mem_nil ht).elim⟩
    | cons x xs ih =>
      obtain ⟨hmax, hxs⟩ := ih (max start x)
      refine ⟨(le_max_left _ _).trans hmax, fun t ht => ?_⟩
      rcases List.mem_cons.mp ht with rfl | ht
      · exact (le_max_right _ _).trans hmax
      · exact hxs t ht
  obtain ⟨hstart, htimes⟩ := go (es.filterMap Event.time) start
  exact ⟨hstart, fun e he t ht => htimes t (List.mem_filterMap.mpr ⟨e, he, ht⟩)⟩

/-- events that are in time for the latest of them may be added in any order: each gets the answer
it gets when it comes first, and the state afterwards is the same -/
theorem addAll_perm [Hashing] (hr : Reachable .eventRate c g) (hs : c.bucketLength.secs.toNat < 2 ^ 63)
    (d : Directory) (hp : es.Perm es') (hin : ∀ e ∈ es, ∀ t ∈ e.time,
      bucketAt (latestOf g.start es) g.length - g.latency * g.length ≤ t) :
    (∀ e ∈ es, (g.add d e).1 ≠ .ok false) ∧
      (g.addAll d es).1 = es.map (fun e => (g.add d e).1) ∧
      (g.addAll d es').1 = es'.map (fun e => (g.add d e).1) ∧
      (g.addAll d es').2.document = (g.addAll d es).2.document ∧
      Checksum.checksum (g.addAll d es').2 = Checksum.checksum (g.addAll d es).2 := by
  have hg := hr.sound hs
  obtain ⟨hstart, htimes⟩ := le_latestOf g.start es
  have hl : g.start ≤ bucketAt (latestOf g.start es) g.length :=
    le_bucketAt hg.pos hg.aligned hstart
  have hes : ∀ e ∈ es, Reaches c (bucketAt (latestOf g.start es) g.length) e := fun e he t ht =>
    ⟨hg.length_eq ▸ bucketAt_mono hg.pos (htimes e he t ht),
      hg.length_eq ▸ hg.latency_eq ▸ hin e he t ht⟩
  have hes' : ∀ e ∈ es', Reaches c (bucketAt (latestOf g.start es) g.length) e :=
    fun e he => hes e (hp.mem_iff.mpr he)
  obtain ⟨hanswers, halike⟩ := addAll_eq hg hg hl hl hes d
  obtain ⟨hanswers', halike'⟩ := addAll_eq hg hg hl hl hes' d
  rw [← putAll_perm (hp.filterMap _) hg] at halike'
  have hview := (halike'.trans halike.symm).view_eq
  exact ⟨fun e he => add_ne_late hg hl (hes e he) d, hanswers, hanswers',
    congrArg View.document hview, congrArg View.checksum hview⟩

/-- three buckets, the window of which moves on; one event has a person that nobody knows -/
theorem addAll_perm_reversed :
    let d : Directory := ⟨fun id => if id < 8 then .active else .unknown, fun _ => .active⟩
    let es : List Event :=
      [⟨some 620, some 7, some 2, [], some 3, some "home", [none, some "host"], false⟩,
       ⟨some 310, some 7, some 2, [], some 1, some "away", [some "host"], false⟩,
       ⟨some 320, some 9, some 2, [], some 1, none, [], false⟩,
       ⟨some 890, some 7, some 2, [], some 2, none, [], true⟩]
    ∃ g, new .eventRate { Config.default with latencyBuckets := 1 } 0 = .ok g ∧
      (∀ e ∈ es, (g.add d e).1 ≠ .ok false) ∧
      (g.addAll d es).1 = es.map (fun e => (g.add d e).1) ∧
      (g.addAll d es.reverse).1 = es.reverse.map (fun e => (g.add d e).1) ∧
      (g.addAll d es.reverse).2.document = (g.addAll d es).2.document ∧
      Checksum.checksum (g.addAll d es.reverse).2 = Checksum.checksum (g.addAll d es).2 := by
  intro d es
  have hvalid : ({ Config.default with latencyBuckets := 1 } : Config).fault? .eventRate = none := by
    decide
  have hnew := new_eq hvalid 0
  refine ⟨_, hnew, ?_⟩
  have hr := Reachable.of_new hnew
  exact addAll_perm hr (by decide) d (List.reverse_perm es).symm (by decide)

end Gatherer

end EventBuckets
