import EventBuckets.Proofs.Lines
import EventBuckets.Proofs.Reuse

/-!
# Records that are skipped

A late record and one whose value is of no use are counted, and no bucket takes them in.  But before
that the buckets are sampled that they push out of the window, and their names get ids.  If neither
shows in the records after them, nothing is written otherwise than without them.

* `Run.Like`                runs that write the same when buckets are passed;
* `Run.Agrees`              runs that write the same from some records on;
* `Run.OnTime.sampleThrough_eq`
                            sampling in two steps;
* `Run.Harmless`            a record pushes out nothing too early;
* `Replay.Underway`         what the run of a replay keeps from its first record on;
* `Replay.skipped_record_leaves_no_trace`
                            removing a skipped record of this kind changes no line.
-/

namespace EventBuckets

namespace Gatherer
variable {g : Gatherer} {d d' : Directory} {e : Event}

/-- what becomes of an event depends on its own ids -/
theorem add_congr (hperson : ∀ p, e.person = some p → d.person p = d'.person p)
    (hattr : ∀ a, e.attr = some a → d.attr a = d'.attr a) : g.add d e = g.add d' e := by
  have hfate (t : Int) : g.fate d e t = g.fate d' e t := by
    unfold fate
    cases hp : e.person with
    | none => rfl
    | some p =>
      cases ha : e.attr with
      | none => rfl
      | some a => simp only [hperson p hp, hattr a ha]
  unfold add
  simp only [hfate]

end Gatherer

namespace Run
variable {r r' a b a' b' q : Run} {kind : SeriesKind} {c : Config} {first : Int} {seen : List Run}
  {written : List FeatureLine} {x y : Record} {xs ys : List Record} {registry : Registry}

theorem sound_idOf {t : NameTable} (h : t.Sound) (name : Option String) :
    (idOf t name).2.Sound := by
  cases name with
  | none => exact h
  | some name => exact h.add name

theorem status_idOf {t : NameTable} (h : t.Sound) {name : Option String} {id : Nat}
    (hid : (idOf t name).1 = some id) : (idOf t name).2.status id = .active := by
  cases name with
  | none => cases hid
  | some name =>
    obtain rfl := Option.some.inj hid
    exact NameTable.status_add h name

theorem sound_register (h : registry.Sound) (x : Record) : (register registry x).2.Sound :=
  ⟨sound_idOf h.people x.person, sound_idOf h.attributes x.attr⟩

theorem ids_usable? {e e' : Event} (h : usable? kind x e = some e') :
    e'.person = e.person ∧ e'.attr = e.attr := by
  unfold usable? Series.interpret? at h
  split at h
  next raw _ =>
    cases kind with
    | eventRate =>
      obtain rfl := Option.some.inj h
      exact ⟨rfl, rfl⟩
    | metric =>
      obtain ⟨values, -, rfl⟩ := Option.map_eq_some_iff.mp h
      exact ⟨rfl, rfl⟩
  next =>
    obtain rfl := Option.some.inj h
    exact ⟨rfl, rfl⟩

/-- the events of records, whose names get ids in turn -/
def eventsOf (registry : Registry) : List Record → List Event
  | [] => []
  | x :: xs => (register registry x).1 :: eventsOf (register registry x).2 xs

theorem registry_intake (h : r.intake x = .ok r') :
    r'.registry = (register r.registry x).2 := by
  unfold Run.intake at h
  simp only at h
  split at h
  · obtain rfl := Except.ok.inj h
    rfl
  · split at h
    · cases h
    · obtain rfl := Except.ok.inj h
      rfl

/-! ## runs that write the same -/

/-- two runs pass their buckets alike -/
structure Like (a b : Run) : Prop where
  gatherer : a.gatherer = b.gatherer
  next : a.next = b.next

theorem Like.sampleNext (h : a.Like b) :
    a.sampleNext.1 = b.sampleNext.1 ∧ a.sampleNext.2.Like b.sampleNext.2 := by
  have hpass : a.passNext = b.passNext := by
    unfold passNext
    rw [h.gatherer, h.next]
  refine ⟨?_, ?_, ?_⟩
  · rw [lines_sampleNext, lines_sampleNext, hpass, h.gatherer, h.next]
  · rw [gatherer_sampleNext, gatherer_sampleNext, hpass, h.gatherer, h.next]
  · rw [next_sampleNext, next_sampleNext, h.gatherer, h.next]

theorem Like.sampleTimes (n : Nat) (lines : Array FeatureLine) (h : a.Like b) :
    (sampleTimes n lines a).1 = (sampleTimes n lines b).1 ∧
      (sampleTimes n lines a).2.Like (sampleTimes n lines b).2 := by
  induction n generalizing a b lines with
  | zero => exact ⟨rfl, h⟩
  | succ n ih =>
    obtain ⟨hlines, hnext⟩ := h.sampleNext
    unfold Run.sampleTimes
    simp only [hlines]
    exact ih _ hnext

theorem Like.sampleThrough (last : Int) (h : a.Like b) :
    (a.sampleThrough last).1 = (b.sampleThrough last).1 ∧
      (a.sampleThrough last).2.Like (b.sampleThrough last).2 := by
  have hpending : a.pending last = b.pending last := by
    unfold pending
    rw [h.gatherer, h.next]
  unfold Run.sampleThrough
  rw [hpending]
  exact h.sampleTimes _ _

/-- the start of the last bucket that a record at `time` pushes out of the window -/
def lastOut (r : Run) (time : Int) : Int :=
  bucketAt time r.gatherer.length - (r.gatherer.latency + 1) * r.gatherer.length

theorem ready_eq (r : Run) (x : Record) :
    r.ready x = r.noting.sampleThrough (r.lastOut x.time) := rfl

theorem Like.ready (h : a.Like b) (x : Record) :
    (a.ready x).1 = (b.ready x).1 ∧ (a.ready x).2.Like (b.ready x).2 := by
  have hnoted : a.noting.Like b.noting := ⟨h.gatherer, h.next⟩
  rw [ready_eq, ready_eq, show a.lastOut x.time = b.lastOut x.time by
    unfold lastOut
    rw [h.gatherer]]
  exact hnoted.sampleThrough _

/-- passing buckets leaves the names and the numbers of skipped records as they are -/
theorem kept_sampleTimes (n : Nat) (lines : Array FeatureLine) (r : Run) :
    (sampleTimes n lines r).2.registry = r.registry ∧
      (sampleTimes n lines r).2.tallies.late = r.tallies.late ∧
      (sampleTimes n lines r).2.tallies.unusable = r.tallies.unusable := by
  induction n generalizing lines r with
  | zero => exact ⟨rfl, rfl, rfl⟩
  | succ n ih =>
    have hnext : r.sampleNext.2.registry = r.registry ∧
        r.sampleNext.2.tallies.late = r.tallies.late ∧
        r.sampleNext.2.tallies.unusable = r.tallies.unusable := by
      unfold Run.sampleNext
      simp only
      split
      · exact ⟨rfl, rfl, rfl⟩
      · exact ⟨rfl, rfl, rfl⟩
    obtain ⟨hregistry, hlate, hunusable⟩ := ih (lines ++ r.sampleNext.1) r.sampleNext.2
    exact ⟨hregistry.trans hnext.1, hlate.trans hnext.2.1, hunusable.trans hnext.2.2⟩

theorem registry_ready (r : Run) (x : Record) : (r.ready x).2.registry = r.registry :=
  (kept_sampleTimes _ #[] r.noting).1

theorem registry_feed {lines : Array FeatureLine} (h : r.feed x = (lines, .ok r')) :
    r'.registry = (register r.registry x).2 := by
  rw [feed_eq] at h
  obtain ⟨-, hintake⟩ := Prod.mk.inj h
  rw [registry_intake hintake, registry_ready]

/-- the names of some records get the same ids in two runs -/
structure SameIds (a b : Run) (xs : List Record) : Prop where
  events : eventsOf a.registry xs = eventsOf b.registry xs
  left : a.registry.Sound
  right : b.registry.Sound

/-- two runs write the same from some records on -/
structure Agrees (a b : Run) (xs : List Record) : Prop where
  like : a.Like b
  ids : a.SameIds b xs

theorem SameIds.ready (h : a.SameIds b xs) (x : Record) :
    (a.ready x).2.SameIds (b.ready x).2 xs := by
  refine ⟨?_, ?_, ?_⟩
  · rw [registry_ready, registry_ready]
    exact h.events
  · rw [registry_ready]
    exact h.left
  · rw [registry_ready]
    exact h.right

/-- a record is taken alike, if its names get the same ids -/
theorem Agrees.intake (h : a.Agrees b (x :: xs)) (hok : a.intake x = .ok a') :
    ∃ b', b.intake x = .ok b' ∧ a'.Agrees b' xs := by
  obtain ⟨hevent, hevents⟩ := List.cons.inj h.ids.events
  have hleft := sound_register h.ids.left x
  have hright := sound_register h.ids.right x
  have hadd {e : Event} (he : usable? b.gatherer.kind x (register b.registry x).1 = some e) :
      b.gatherer.add (register a.registry x).2.directory e =
        b.gatherer.add (register b.registry x).2.directory e := by
    obtain ⟨hperson, hattr⟩ := ids_usable? he
    refine Gatherer.add_congr (fun p hp => ?_) (fun i hi => ?_)
    · have hright : (idOf b.registry.people x.person).1 = some p := hperson.symm.trans hp
      have hleft : (idOf a.registry.people x.person).1 = some p :=
        (congrArg Event.person hevent).trans hright
      exact (status_idOf h.ids.left.people hleft).trans (status_idOf h.ids.right.people hright).symm
    · have hright : (idOf b.registry.attributes x.attr).1 = some i := hattr.symm.trans hi
      have hleft : (idOf a.registry.attributes x.attr).1 = some i :=
        (congrArg Event.attr hevent).trans hright
      exact (status_idOf h.ids.left.attributes hleft).trans
        (status_idOf h.ids.right.attributes hright).symm
  unfold Run.intake at hok ⊢
  simp only [h.like.gatherer, hevent] at hok ⊢
  cases husable : usable? b.gatherer.kind x (register b.registry x).1 with
  | none =>
    rw [husable] at hok
    obtain rfl := Except.ok.inj hok
    exact ⟨_, rfl, ⟨rfl, h.like.next⟩, ⟨hevents, hleft, hright⟩⟩
  | some e =>
    rw [husable] at hok
    simp only [hadd husable] at hok ⊢
    split at hok
    · cases hok
    next inTime g hg =>
      obtain rfl := Except.ok.inj hok
      exact ⟨_, rfl, ⟨rfl, h.like.next⟩, ⟨hevents, hleft, hright⟩⟩

/-! ## sampling in two steps -/

theorem sampleTimes_append (n : Nat) (lines : Array FeatureLine) (r : Run) :
    sampleTimes n lines r = (lines ++ (sampleTimes n #[] r).1, (sampleTimes n #[] r).2) := by
  induction n generalizing lines r with
  | zero => simp [sampleTimes]
  | succ n ih =>
    unfold sampleTimes
    simp only
    rw [ih, ih (#[] ++ r.sampleNext.1)]
    refine Prod.ext (Array.toList_inj.mp ?_) rfl
    simp

theorem sampleTimes_add (m n : Nat) (lines : Array FeatureLine) (r : Run) :
    sampleTimes (m + n) lines r =
      sampleTimes n (sampleTimes m lines r).1 (sampleTimes m lines r).2 := by
  induction m generalizing lines r with
  | zero =>
    rw [Nat.zero_add]
    rfl
  | succ m ih =>
    rw [Nat.add_right_comm]
    exact ih _ _

/-- sampling through a bucket samples through those before it first -/
theorem OnTime.sampleThrough_eq (h : r.OnTime kind c first seen written) {last last' : Int}
    (hlast : c.bucketSeconds ∣ last) (hlast' : c.bucketSeconds ∣ last')
    (hle : last < r.next ∨ last ≤ last') :
    r.sampleThrough last' =
      ((r.sampleThrough last).1 ++ ((r.sampleThrough last).2.sampleThrough last').1,
        ((r.sampleThrough last).2.sampleThrough last').2) := by
  have hpos := h.sound.counts.ring.pos
  obtain ⟨hmid, hnext⟩ := h.sampleThrough hlast
  have hfirst := next_add_pending h.sound.length_eq hpos h.aligned hlast
  have hrest := next_add_pending hmid.sound.length_eq hpos hmid.aligned hlast'
  have hall := next_add_pending h.sound.length_eq hpos h.aligned hlast'
  have hpending : r.pending last' =
      r.pending last + (r.sampleThrough last).2.pending last' := by
    have hmul : (r.pending last' : Int) * c.bucketSeconds =
        ((r.pending last + (r.sampleThrough last).2.pending last' : Nat) : Int) *
          c.bucketSeconds := by
      rw [Nat.cast_add, add_mul]
      rw [hnext] at hrest
      have hlater : last + c.bucketSeconds ≤ r.next ∨ last ≤ last' := by
        rcases hle with hlt | hle
        · obtain ⟨k, hk⟩ := h.aligned
          obtain ⟨j, hj⟩ := hlast
          refine .inl ?_
          rw [hj, hk] at hlt ⊢
          have hkj := lt_of_mul_lt_mul_left hlt hpos.le
          calc c.bucketSeconds * j + c.bucketSeconds = c.bucketSeconds * (j + 1) := by ring
            _ ≤ c.bucketSeconds * k := Int.mul_le_mul_of_nonneg_left hkj hpos.le
        · exact .inr hle
      omega
    exact_mod_cast mul_right_cancel₀ hpos.ne' hmul
  have hsplit : r.sampleThrough last' = Run.sampleTimes ((r.sampleThrough last).2.pending last')
      (r.sampleThrough last).1 (r.sampleThrough last).2 := by
    unfold Run.sampleThrough at hpending ⊢
    rw [hpending, sampleTimes_add]
  rw [hsplit, sampleTimes_append]
  rfl

/-! ## skipped records -/

/-- a record pushes nothing out of the window that the records after it, or their end, would leave
in it -/
inductive Harmless (r : Run) (x : Record) : List Record → Prop
  | nothing {ys : List Record} (h : r.lastOut x.time < r.next) : Harmless r x ys
  | next {y : Record} {ys : List Record}
      (h : bucketAt x.time r.gatherer.length ≤ bucketAt y.time r.gatherer.length) :
      Harmless r x (y :: ys)
  | last (h : bucketAt x.time r.gatherer.length ≤ r.gatherer.start + r.gatherer.length) :
      Harmless r x []

/-- a skipped record leaves the buckets as it finds them, and a late one lies before the window -/
theorem intake_skipped (h : r.intake x = .ok r')
    (hskip : r'.tallies.late = r.tallies.late + 1 ∨ r'.tallies.unusable = r.tallies.unusable + 1) :
    r'.Like r ∧ (r'.tallies.late = r.tallies.late + 1 → x.time < r.gatherer.oldest) := by
  unfold Run.intake at h
  simp only at h
  split at h
  · obtain rfl := Except.ok.inj h
    exact ⟨⟨rfl, rfl⟩, fun hlate => absurd hlate (Nat.ne_of_lt (Nat.lt_succ_self _))⟩
  next e he =>
    split at h
    · cases h
    next inTime g hadd =>
      obtain rfl := Except.ok.inj h
      have hadds := Gatherer.adds r.gatherer (register r.registry x).2.directory e
      rw [hadd] at hadds
      cases inTime with
      | true =>
        rcases hskip with hlate | hunusable
        · exact absurd hlate (Nat.ne_of_lt (Nat.lt_succ_self _))
        · exact absurd hunusable (Nat.ne_of_lt (Nat.lt_succ_self _))
      | false =>
        cases hadds with
        | @late t ht hf hlate =>
          have htime : e.time = some x.time := time_usable? he
          obtain rfl := Option.some.inj (ht.symm.trans htime)
          exact ⟨⟨rfl, rfl⟩, fun _ => hlate⟩

theorem OnTime.noting (h : r.OnTime kind c first seen written) :
    r.noting.OnTime kind c first seen written :=
  ⟨h.sound, h.first_aligned, h.next_eq, h.starts_eq, h.first_le, h.reach, h.near, h.passed,
    h.written_eq, h.tallied⟩

theorem OnTime.lastOut_eq (h : r.OnTime kind c first seen written) (t : Int) :
    r.lastOut t + c.bucketSeconds =
      bucketAt t c.bucketSeconds - c.latencyBuckets * c.bucketSeconds := by
  unfold lastOut
  rw [h.sound.length_eq, h.sound.latency_eq]
  ring

theorem OnTime.dvd_lastOut (h : r.OnTime kind c first seen written) (t : Int) :
    c.bucketSeconds ∣ r.lastOut t := by
  unfold lastOut
  rw [h.sound.length_eq]
  exact Int.dvd_sub (dvd_bucketAt _ _) (Int.dvd_mul_left _ _)

theorem OnTime.next_ready (h : r.OnTime kind c first seen written) (x : Record) :
    (r.ready x).2.next = max r.next (r.lastOut x.time + c.bucketSeconds) :=
  (h.noting.sampleThrough (h.dvd_lastOut x.time)).2

/-- a skipped record passes the buckets that it pushes out, none if it is late, and no more -/
theorem OnTime.feed_skipped (hon : r.OnTime kind c first seen written)
    {pushed : Array FeatureLine} (hx : r.feed x = (pushed, .ok r'))
    (hskip : r'.tallies.late = r.tallies.late + 1 ∨ r'.tallies.unusable = r.tallies.unusable + 1) :
    pushed = (r.ready x).1 ∧ r'.Like (r.ready x).2 ∧
      r'.registry = (register r.registry x).2 ∧
      (r'.tallies.late = r.tallies.late + 1 → x.time < r.next ∧ r.lastOut x.time < r.next) := by
  have hpos := hon.sound.counts.ring.pos
  have hregistry := registry_feed hx
  rw [feed_eq] at hx
  obtain ⟨rfl, hintake⟩ := Prod.mk.inj hx
  have hkept : (r.ready x).2.tallies.late = r.tallies.late ∧
      (r.ready x).2.tallies.unusable = r.tallies.unusable := (kept_sampleTimes _ #[] r.noting).2
  rw [← hkept.1, ← hkept.2] at hskip
  obtain ⟨hlike, hlate⟩ := intake_skipped hintake hskip
  refine ⟨rfl, hlike, hregistry, fun h => ?_⟩
  have hreach := (hon.ready x).1.reach
  have hsound := (hon.ready x).1.sound
  have hold := hlate (h.trans (congrArg (· + 1) hkept.1.symm))
  unfold Gatherer.oldest at hold
  rw [hsound.length_eq, hsound.latency_eq] at hold
  rw [hon.next_ready] at hreach
  have hlast := hon.lastOut_eq x.time
  have hle := bucketAt_le x.time hpos
  have hnonneg : 0 ≤ (c.latencyBuckets : Int) * c.bucketSeconds :=
    mul_nonneg (Int.natCast_nonneg _) hpos.le
  omega

/-- the clock stays, if the buckets that are passed have left the window already -/
theorem OnTime.start_sampleTimes (h : r.OnTime kind c first seen written) (n : Nat)
    (lines : Array FeatureLine)
    (hn : r.next + n * c.bucketSeconds + c.latencyBuckets * c.bucketSeconds ≤
      r.gatherer.start + c.bucketSeconds) :
    (Run.sampleTimes n lines r).2.gatherer.start = r.gatherer.start := by
  have hpos := h.sound.counts.ring.pos
  induction n generalizing r seen written lines with
  | zero => rfl
  | succ n ih =>
    push_cast at hn
    have hsum : ((n : Int) + 1) * c.bucketSeconds = n * c.bucketSeconds + c.bucketSeconds := by ring
    have hnonneg : 0 ≤ (n : Int) * c.bucketSeconds := mul_nonneg (Int.natCast_nonneg _) hpos.le
    have hstart : r.sampleNext.2.gatherer.start = r.gatherer.start := by
      rw [start_sampleNext, start_passNext h.sound (h.sound.length_eq ▸ h.aligned),
        h.sound.length_eq, h.sound.latency_eq]
      exact max_eq_left (by omega)
    refine (ih h.sampleNext _ ?_).trans hstart
    rw [hstart, next_sampleNext, h.sound.length_eq]
    omega

/-- a record that is not beyond the bucket after the clock does not push the clock forward -/
theorem Harmless.start_ready (hharm : r.Harmless x []) (hon : r.OnTime kind c first seen written) :
    (r.ready x).2.gatherer.start = r.gatherer.start := by
  show (sampleTimes (r.noting.pending (r.lastOut x.time)) #[] r.noting).2.gatherer.start =
    r.noting.gatherer.start
  rcases lt_or_ge (r.lastOut x.time) r.next with hlt | hge
  · have hnone : r.noting.pending (r.lastOut x.time) = 0 := if_pos hlt
    rw [hnone]
    rfl
  · have hpos := hon.sound.counts.ring.pos
    have hlast := hon.lastOut_eq x.time
    have hbucket : bucketAt x.time c.bucketSeconds ≤ r.gatherer.start + c.bucketSeconds := by
      cases hharm with
      | nothing h => exact absurd h (not_lt.mpr hge)
      | last h => rwa [hon.sound.length_eq] at h
    refine hon.noting.start_sampleTimes _ _ ?_
    rw [next_add_pending hon.noting.sound.length_eq hpos hon.noting.aligned
      (hon.dvd_lastOut x.time)]
    show max r.next _ + _ ≤ r.gatherer.start + _
    rw [max_eq_right (by omega)]
    omega

/-- what a harmless record pushes out is what the next one would push out first -/
theorem Harmless.ready (hharm : r.Harmless x (y :: ys)) (hon : r.OnTime kind c first seen written)
    (hlike : r'.Like (r.ready x).2) :
    (r.ready y).1 = (r.ready x).1 ++ (r'.ready y).1 ∧ (r'.ready y).2.Like (r.ready y).2 := by
  have hle : r.lastOut x.time < r.next ∨ r.lastOut x.time ≤ r.lastOut y.time := by
    cases hharm with
    | nothing h => exact .inl h
    | next h =>
      refine .inr ?_
      unfold lastOut
      omega
  have hlast : r'.lastOut y.time = r.lastOut y.time := by
    have hsound := (hon.ready x).1.sound
    unfold lastOut
    rw [hlike.gatherer, hsound.length_eq, hsound.latency_eq, hon.sound.length_eq,
      hon.sound.latency_eq]
  have hnoted : r'.noting.Like (r.ready x).2 := ⟨hlike.gatherer, hlike.next⟩
  obtain ⟨hlines, hnext⟩ := hnoted.sampleThrough (r.lastOut y.time)
  have hsplit := hon.noting.sampleThrough_eq (hon.dvd_lastOut x.time) (hon.dvd_lastOut y.time) hle
  rw [ready_eq r y, ready_eq r' y, hsplit, hlast]
  exact ⟨congrArg (fun ls => (r.ready x).1 ++ ls) hlines.symm, hnext⟩

/-- what a harmless last record pushes out is what would be sampled first at the end -/
theorem Harmless.drain (hharm : r.Harmless x []) (hon : r.OnTime kind c first seen written)
    (hlike : r'.Like (r.ready x).2) : r.drain.1 = (r.ready x).1 ++ r'.drain.1 := by
  have hle : r.lastOut x.time < r.next ∨ r.lastOut x.time ≤ r.gatherer.start := by
    cases hharm with
    | nothing h => exact .inl h
    | last h =>
      have hlast := hon.lastOut_eq x.time
      have hnonneg : 0 ≤ (c.latencyBuckets : Int) * c.bucketSeconds :=
        mul_nonneg (Int.natCast_nonneg _) hon.sound.counts.ring.pos.le
      rw [hon.sound.length_eq] at h
      exact .inr (by omega)
  have hnoted : r.Like r.noting := ⟨rfl, rfl⟩
  have hclock : r'.gatherer.start = r.gatherer.start := by
    rw [hlike.gatherer, hharm.start_ready hon]
  unfold Run.drain
  rw [(hnoted.sampleThrough _).1, hclock, (hlike.sampleThrough _).1,
    hon.noting.sampleThrough_eq (hon.dvd_lastOut x.time) hon.sound.counts.ring.aligned hle]
  rfl

/-- without an event there is nothing to write -/
theorem drain_start (hs : c.bucketLength.secs.toNat < 2 ^ 63) {t : Int}
    (h : Run.start kind c t = .ok r) : r.drain.1 = #[] := by
  have go (n : Nat) (lines : Array FeatureLine) (r : Run) (hr : r.gatherer.Sound kind c)
      (hnone : r.gatherer.earliest = none) : (sampleTimes n lines r).1 = lines := by
    induction n generalizing lines r with
    | zero => rfl
    | succ n ih =>
      have hskipped : ¬r.gatherer.available r.next = true := by
        unfold Gatherer.available
        rw [hnone]
        nofun
      have hlines : r.sampleNext.1 = [] := by rw [lines_sampleNext, if_neg hskipped]
      have hnext : r.sampleNext.2.gatherer.earliest = none := by
        rw [gatherer_sampleNext, if_neg hskipped, passNext, if_neg hskipped]
        exact (Gatherer.earliest_advance hr _ false).trans hnone
      refine (ih (lines ++ r.sampleNext.1) _ (sound_sampleNext hr) hnext).trans ?_
      rw [hlines]
      simp
  unfold Run.start at h
  split at h
  next g hg =>
    obtain rfl := Except.ok.inj h
    have hsound := Gatherer.sound_new hs hg
    rw [Gatherer.new_eq (Gatherer.valid_of_new hg)] at hg
    obtain rfl := Except.ok.inj hg
    exact go _ _ _ hsound rfl
  · cases h

/-- a run begins alike for all times in a bucket -/
theorem start_congr {s t : Int} (h : bucketAt s c.bucketSeconds = bucketAt t c.bucketSeconds) :
    Run.start kind c s = Run.start kind c t := by
  have hnew : Gatherer.new kind c s = Gatherer.new kind c t := by
    have hring {α : Type} [PairData α] : (Window.new c s : Window α) = Window.new c t := by
      unfold Window.new Ring.new
      rw [h]
    have hseries : Series.new kind c s = Series.new kind c t := by
      unfold Series.new Occurrences.new Measured.new
      rw [hring, hring]
    unfold Gatherer.new
    rw [h, hring, hseries]
  unfold Run.start
  rw [hnew]

end Run

namespace Replay
variable {r r' s : Replay} {a b run : Run} {kind : SeriesKind} {c : Config} {x y : Record}
  {xs ys : List Record} {lines : Array FeatureLine}

open Run (Agrees)

theorem feedAll_cons {written : Array FeatureLine} (h : r.feed x = (lines, .ok r')) :
    feedAll written r (x :: xs) = feedAll (written ++ lines) r' xs := by
  rw [feedAll, h]

theorem exists_feed {written : Array FeatureLine}
    (h : feedAll written r (x :: xs) = (lines, .ok r')) :
    ∃ lines' r₁, r.feed x = (lines', .ok r₁) ∧
      feedAll (written ++ lines') r₁ xs = (lines, .ok r') := by
  unfold Replay.feedAll at h
  split at h
  next lines' r₁ hfeed => exact ⟨lines', r₁, hfeed, h⟩
  · cases h

theorem feedAll_append {written : Array FeatureLine} (h : feedAll written r xs = (lines, .ok r')) :
    feedAll written r (xs ++ ys) = feedAll lines r' ys := by
  induction xs generalizing r written with
  | nil =>
    obtain ⟨rfl, hr⟩ := Prod.mk.inj h
    obtain rfl := Except.ok.inj hr
    rfl
  | cons x xs ih =>
    obtain ⟨lines', r₁, hfeed, hrest⟩ := exists_feed h
    rw [List.cons_append, feedAll_cons hfeed]
    exact ih hrest

theorem feed_eq (h : r.begun x.time = .ok a) (hok : r.feed x = (lines, .ok r')) :
    ∃ a', a.feed x = (lines, .ok a') ∧ r' = { r with run := some a' } := by
  unfold Replay.feed at hok
  rw [h] at hok
  simp only at hok
  split at hok
  next lines' a' hfeed =>
    obtain ⟨rfl, hr⟩ := Prod.mk.inj hok
    exact ⟨a', hfeed, (Except.ok.inj hr).symm⟩
  · cases hok

theorem feed_of_begun {a' : Run} (h : r.begun x.time = .ok a) (hok : a.feed x = (lines, .ok a')) :
    r.feed x = (lines, .ok { r with run := some a' }) := by
  unfold Replay.feed
  rw [h]
  simp only [hok]

/-- runs that agree once the buckets before a record are passed take the record alike -/
theorem feed_agrees (hr : r.begun x.time = .ok a) (hs : s.begun x.time = .ok b)
    (hready : (a.ready x).2.Agrees (b.ready x).2 (x :: xs))
    (hok : r.feed x = (lines, .ok r')) :
    lines = (a.ready x).1 ∧ ∃ s' a' b', s.feed x = ((b.ready x).1, .ok s') ∧
      r'.run = some a' ∧ s'.run = some b' ∧ a'.Agrees b' xs := by
  obtain ⟨a', hfeed, rfl⟩ := feed_eq hr hok
  obtain ⟨rfl, hintake⟩ := Prod.mk.inj hfeed
  obtain ⟨b', hintake', hagrees⟩ := hready.intake hintake
  have hfeed' : b.feed x = ((b.ready x).1, .ok b') := by rw [Run.feed_eq, hintake']
  exact ⟨rfl, _, a', b', feed_of_begun hs hfeed', rfl, rfl, hagrees⟩

theorem begun_of_run (h : r.run = some a) (time : Int) : r.begun time = .ok a := by
  unfold begun
  rw [h]

theorem feedAll_agrees {written : Array FeatureLine} (hr : r.run = some a) (hs : s.run = some b)
    (h : a.Agrees b xs) (hok : feedAll written r xs = (lines, .ok r')) :
    ∃ s', feedAll written s xs = (lines, .ok s') ∧ s'.finish.1 = r'.finish.1 := by
  induction xs generalizing r s a b written with
  | nil =>
    obtain ⟨rfl, hend⟩ := Prod.mk.inj hok
    obtain rfl := Except.ok.inj hend
    refine ⟨s, rfl, ?_⟩
    have hdrain : b.drain.1 = a.drain.1 := by
      unfold Run.drain
      rw [h.like.gatherer]
      exact (h.like.sampleThrough _).1.symm
    unfold finish
    rw [hr, hs]
    exact hdrain
  | cons x xs ih =>
    obtain ⟨lines', r₁, hfeed, hrest⟩ := exists_feed hok
    obtain ⟨hlines, hlike⟩ := h.like.ready x
    obtain ⟨rfl, s₁, a', b', hfeed', ha', hb', hagrees⟩ :=
      feed_agrees (begun_of_run hr _) (begun_of_run hs _) ⟨hlike, h.ids.ready x⟩ hfeed
    rw [feedAll_cons hfeed', ← hlines]
    exact ih ha' hb' hagrees hrest

/-- a replay before its first record, or one whose run is on time and whose names are in their
slots -/
inductive Underway (kind : SeriesKind) (c : Config) (r : Replay) : Prop
  | idle (h : r = ⟨kind, c, none⟩)
  | running {run : Run} {first : Int} {seen : List Run} {written : List FeatureLine}
      (hrun : r.run = some run) (hon : run.OnTime kind c first seen written)
      (hnames : run.registry.Sound)

theorem underway_new (h : Replay.new kind c = .ok r) : r.Underway kind c := .idle (of_new h).2

theorem Underway.eq_of_run (h : r.Underway kind c) (hnone : r.run = none) :
    r = ⟨kind, c, none⟩ := by
  cases h with
  | idle h => exact h
  | running hrun => rw [hnone] at hrun; cases hrun

theorem Underway.begun (hs : c.bucketLength.secs.toNat < 2 ^ 63) (h : r.Underway kind c)
    {time : Int} (hbegun : r.begun time = .ok run) :
    (∃ first seen written, run.OnTime kind c first seen written) ∧ run.registry.Sound := by
  cases h with
  | idle h =>
    obtain rfl := h
    have hstart : Run.start kind c time = .ok run := hbegun
    refine ⟨⟨_, _, _, onTime_start hs hstart⟩, ?_⟩
    unfold Run.start at hstart
    split at hstart
    · obtain rfl := Except.ok.inj hstart
      exact Registry.sound_empty
    · cases hstart
  | running hrun hon hnames =>
    obtain rfl := Except.ok.inj ((begun_of_run hrun time).symm.trans hbegun)
    exact ⟨⟨_, _, _, hon⟩, hnames⟩

/-- a record that lies before the next bucket is not the first one -/
theorem Underway.run_ne_none (hs : c.bucketLength.secs.toNat < 2 ^ 63) (h : r.Underway kind c)
    {time : Int} (hbegun : r.begun time = .ok run) (hbefore : time < run.next) : r.run ≠ none := by
  intro hnone
  obtain rfl := h.eq_of_run hnone
  have hon := onTime_start hs hbegun
  have hnext := hon.next_eq
  have hle := bucketAt_le time hon.sound.counts.ring.pos
  simp only [List.length_nil, Nat.cast_zero, zero_mul, add_zero] at hnext
  omega

/-- the run that is found or begun, also at another time of the first bucket -/
theorem Underway.begun_eq (h : r.Underway kind c) {s t : Int} (hbegun : r.begun s = .ok run)
    (hsame : r.run = none → bucketAt s c.bucketSeconds = bucketAt t c.bucketSeconds) :
    r.begun t = .ok run := by
  cases hrun : r.run with
  | some run₀ =>
    obtain rfl := Except.ok.inj ((begun_of_run hrun s).symm.trans hbegun)
    exact begun_of_run hrun t
  | none =>
    have hstart : Run.start kind c s = Run.start kind c t := Run.start_congr (hsame hrun)
    obtain rfl := h.eq_of_run hrun
    exact hstart.symm.trans hbegun

/-- a replay ends like the run that it has or that a record would begin -/
theorem Underway.finish_eq (hs : c.bucketLength.secs.toNat < 2 ^ 63) (h : r.Underway kind c)
    {time : Int} (hbegun : r.begun time = .ok run) : r.finish.1 = run.drain.1 := by
  unfold finish
  cases hrun : r.run with
  | some run₀ =>
    obtain rfl := Except.ok.inj ((begun_of_run hrun time).symm.trans hbegun)
    rfl
  | none =>
    obtain rfl := h.eq_of_run hrun
    exact (Run.drain_start hs hbegun).symm

theorem Underway.feed (hs : c.bucketLength.secs.toNat < 2 ^ 63) (h : r.Underway kind c)
    (hok : r.feed x = (lines, .ok r')) : r'.Underway kind c := by
  obtain ⟨run₀, hbegun⟩ := exists_begun hok
  obtain ⟨⟨first, seen, written, hon⟩, hnames⟩ := h.begun hs hbegun
  obtain ⟨run, hrun, hon'⟩ := onTime_feed hbegun hon hok
  refine .running hrun hon' ?_
  obtain ⟨a, hfeed, rfl⟩ := feed_eq hbegun hok
  obtain rfl := Option.some.inj hrun
  rw [Run.registry_feed hfeed]
  exact Run.sound_register hnames x

theorem Underway.feedAll (hs : c.bucketLength.secs.toNat < 2 ^ 63) (h : r.Underway kind c)
    {written : Array FeatureLine} (hok : feedAll written r xs = (lines, .ok r')) :
    r'.Underway kind c := by
  induction xs generalizing r written with
  | nil =>
    obtain ⟨-, hend⟩ := Prod.mk.inj hok
    obtain rfl := Except.ok.inj hend
    exact h
  | cons x xs ih =>
    obtain ⟨lines', r₁, hfeed, hrest⟩ := exists_feed hok
    exact ih (h.feed hs hfeed) hrest

/-- without a late record, or one of no use that pushes out nothing too early, a replay writes the
same lines, if the names of the records after it keep their ids; a first record also has to fall
into the bucket of the next one -/
theorem skipped_record_leaves_no_trace (hs : c.bucketLength.secs.toNat < 2 ^ 63)
    (hnew : Replay.new kind c = .ok r) {before pushed : Array FeatureLine} {r₁ : Replay}
    {run' : Run} (hxs : feedAll #[] r xs = (before, .ok r₁)) (hbegun : r₁.begun x.time = .ok run)
    (hx : run.feed x = (pushed, .ok run'))
    (hskip : run'.tallies.late = run.tallies.late + 1 ∨
      run'.tallies.unusable = run.tallies.unusable + 1 ∧ run.Harmless x ys ∧
        (r₁.run = none → ∀ y ∈ ys.head?,
          bucketAt x.time c.bucketSeconds = bucketAt y.time c.bucketSeconds))
    (hids : Run.eventsOf run'.registry ys = Run.eventsOf run.registry ys)
    {ls : List FeatureLine} (hout : r.output? (xs ++ x :: ys) = some ls) :
    r.output? (xs ++ ys) = some ls := by
  obtain ⟨lines, r', hall, rfl⟩ := exists_of_output? hout
  rw [feedAll_append hxs, feedAll_cons (feed_of_begun hbegun hx)] at hall
  have hunder : r₁.Underway kind c := (underway_new hnew).feedAll hs hxs
  obtain ⟨⟨first, seen, written, hon⟩, hnames⟩ := hunder.begun hs hbegun
  obtain ⟨rfl, hlike, hregistry, hlate⟩ := hon.feed_skipped hx (hskip.imp_right And.left)
  have hharm : run.Harmless x ys :=
    hskip.elim (fun h => .nothing (hlate h).2) fun h => h.2.1
  have hfirst (hnone : r₁.run = none) : ∀ y ∈ ys.head?,
      bucketAt x.time c.bucketSeconds = bucketAt y.time c.bucketSeconds :=
    hskip.elim (fun h => absurd hnone (hunder.run_ne_none hs hbegun (hlate h).1))
      fun h => h.2.2 hnone
  unfold output?
  rw [feedAll_append hxs]
  cases ys with
  | nil =>
    obtain ⟨rfl, hend⟩ := Prod.mk.inj hall
    obtain rfl := Except.ok.inj hend
    show some (before ++ r₁.finish.1).toList = some (before ++ _ ++ run'.drain.1).toList
    rw [hunder.finish_eq hs hbegun, hharm.drain hon hlike, Array.append_assoc]
  | cons y ys =>
    have hbegun' : r₁.begun y.time = .ok run :=
      hunder.begun_eq hbegun fun hnone => hfirst hnone y rfl
    have hids' : run'.SameIds run (y :: ys) :=
      ⟨hids, hregistry ▸ Run.sound_register hnames x, hnames⟩
    obtain ⟨hready, hlike'⟩ := hharm.ready hon hlike
    obtain ⟨lines', r₃, hfeed, hrest⟩ := exists_feed hall
    obtain ⟨rfl, s, a', b', hfeed', ha', hb', hagrees⟩ :=
      feed_agrees (begun_of_run rfl _) hbegun' ⟨hlike', hids'.ready y⟩ hfeed
    obtain ⟨s', hs', hfinish⟩ := feedAll_agrees ha' hb' hagrees hrest
    rw [feedAll_cons hfeed', hready, ← Array.append_assoc, hs']
    simp only [hfinish]

/-- a late record of a known person leaves the lines of the two buckets as they are -/
theorem late_record_leaves_no_trace :
    let c : Config := { Config.default with bucketLength := .ofSecs 60 }
    let r : Replay := ⟨.eventRate, c, none⟩
    let login (time : Int) : Record :=
      ⟨time, some "alice", some "login", none, [], some 1, none, [], false⟩
    let written : List FeatureLine :=
      [⟨60, 60, .countByPerson, .personCounts [(0, 1)]⟩,
        ⟨120, 60, .countByPerson, .personCounts [(0, 1)]⟩]
    r.output? [login 60, login 0, login 130] = some written ∧
      r.output? [login 60, login 130] = some written := by
  intro c r login written
  have hnew : Replay.new .eventRate c = .ok r := by
    unfold Replay.new
    rw [show c.fault? .eventRate = none by decide]
  have hout : r.output? ([login 60] ++ login 0 :: [login 130]) = some written := by
    simp only [r, c, login, written]
    cbv
  obtain ⟨lines, r', hall, -⟩ := exists_of_output? hout
  obtain ⟨before, r₁, hfirst, hrest⟩ := exists_feed hall
  obtain ⟨pushed, r₂, hsecond, -⟩ := exists_feed hrest
  obtain ⟨run, hbegun⟩ := exists_begun hsecond
  obtain ⟨run', hx, -⟩ := feed_eq hbegun hsecond
  -- what a run knows before and after the late record, for all that is left to show
  let known (run : Run) : Nat × List Event :=
    (run.tallies.late, Run.eventsOf run.registry [login 130])
  have hknown : ((r.feed (login 60)).2.toOption.bind fun r₁ =>
      (r₁.begun 0).toOption.bind fun run =>
        (run.feed (login 0)).2.toOption.map fun run' => (known run, known run')) =
      some ((0, [⟨some 130, some 0, some 0, [], some 1, none, [], false⟩]),
        (1, [⟨some 130, some 0, some 0, [], some 1, none, [], false⟩])) := by
    simp only [r, c, login, known]
    cbv
  rw [hfirst] at hknown
  simp only [Except.toOption, Option.bind_some, show r₁.begun 0 = .ok run from hbegun, hx,
    Option.map_some, Option.some_inj, Prod.mk.injEq, known] at hknown
  obtain ⟨⟨hlate, hevents⟩, hlate', hevents'⟩ := hknown
  exact ⟨hout, skipped_record_leaves_no_trace (by decide) hnew (feedAll_cons hfirst) hbegun hx
    (.inl (by rw [hlate, hlate'])) (hevents'.trans hevents.symm) hout⟩

end Replay

end EventBuckets
