import EventBuckets.Checksum.Folded
import EventBuckets.Proofs.Available
import EventBuckets.Proofs.TimedMap

/-!
# Going through a ring agrees with looking up

The slots are read from that of the oldest bucket on and then from the first one on, and each start
is counted from the oldest one.

* `entries_eq_starts`       each start of the window comes once, in order, with what is found there;
* `entries_mapTimed`        a change of every bucket meets the same items with the same starts;
* `mapTimed_eq_modifyAll`   and does what an edit of each bucket in turn does;
* `entries_congr`           so entries, checksum and document do not depend on the slots;
* `run_entries`             all of this after any run of operations.
-/

set_option linter.unusedSectionVars false

namespace EventBuckets

namespace Ring

variable {α : Type} {r : Ring α}

/-! ## entries -/

theorem getElem?_starts {k : Nat} (hk : k < r.capacity) :
    r.starts[k]? = some (r.oldest + k * r.length) := by
  simp [starts, hk]

theorem entries_eq_starts (h : r.Sound) :
    (r.entries.map fun e => (e.1, some e.2)) = r.starts.map fun s => (s, r.get? s) := by
  apply List.ext_getElem?
  intro k
  rw [List.getElem?_map, List.getElem?_map]
  rcases lt_or_ge k r.capacity with hk | hk
  · rw [getElem?_starts hk]
    have hsome : (r.entries[k]?).isSome := by simpa using hk
    rw [getElem?_entries h hk] at hsome ⊢
    obtain ⟨x, hx⟩ := Option.isSome_iff_exists.mp (Option.isSome_map.symm.trans hsome)
    simp [hx]
  · rw [List.getElem?_eq_none (by simpa using hk), List.getElem?_eq_none (by simpa using hk)]
    rfl

theorem entries_mapTimed (h : r.Sound) (f : Int → α → α) :
    (r.mapTimed f).entries = r.entries.map fun e => (e.1, f e.1 e.2) := by
  have hold : (r.mapTimed f).oldest = r.oldest := by
    unfold oldest
    rw [capacity_mapTimed]
    rfl
  have hlen : (r.mapTimed f).length = r.length := rfl
  apply List.ext_getElem?
  intro k
  rw [List.getElem?_map]
  rcases lt_or_ge k r.capacity with hk | hk
  · have hstart : bucketAt (r.oldest + k * r.length) r.length = r.oldest + k * r.length :=
      bucketAt_of_dvd ((mem_starts h).mp (List.mem_of_getElem? (getElem?_starts hk))).1
    rw [getElem?_entries (h.mapTimed f) (by simpa using hk), getElem?_entries h hk, hold, hlen,
      get?_mapTimed h, hstart, Option.map_map, Option.map_map]
    rfl
  · rw [List.getElem?_eq_none (by simpa using hk), List.getElem?_eq_none (by simpa using hk)]
    rfl

/-- rings with the same starts that find the same there have the same entries -/
theorem entries_congr {r' : Ring α} (h : r.Sound) (h' : r'.Sound) (hs : r'.starts = r.starts)
    (hg : ∀ s ∈ r.starts, r'.get? s = r.get? s) : r'.entries = r.entries := by
  rw [entries_eq h, entries_eq h', hs]
  exact List.filterMap_congr fun s hmem => by rw [hg s hmem]

theorem checksum_congr [Hashing] [Checksum α] {r' : Ring α} (hn : r'.newest = r.newest)
    (he : r'.entries = r.entries) : Checksum.checksum r' = Checksum.checksum r := by
  show chainAll _ _ = chainAll _ _
  rw [hn, he]

theorem nodes_congr [Persist α] {r' : Ring α} (hn : r'.newest = r.newest)
    (he : r'.entries = r.entries) : r'.nodes = r.nodes := by
  unfold nodes
  rw [hn, he]

/-! ## a change of every bucket -/

/-- edits the buckets that start at the given times, one after the other -/
def modifyAll (r : Ring α) (starts : List Int) (f : Int → α → α) : Ring α :=
  starts.foldl (fun r s => r.modify s (f s)) r

theorem modifyAll_cons (r : Ring α) (s : Int) (starts : List Int) (f : Int → α → α) :
    r.modifyAll (s :: starts) f = (r.modify s (f s)).modifyAll starts f := rfl

theorem modifyAll_frame (h : r.Sound) (starts : List Int) (f : Int → α → α) :
    (r.modifyAll starts f).Sound ∧ (r.modifyAll starts f).length = r.length ∧
      (r.modifyAll starts f).capacity = r.capacity ∧ (r.modifyAll starts f).newest = r.newest := by
  induction starts generalizing r with
  | nil => exact ⟨h, rfl, rfl, rfl⟩
  | cons s starts ih =>
    obtain ⟨hsound, hl, hc, hn⟩ := ih (h.modify s (f s))
    exact ⟨hsound, hl.trans (length_modify r s _), hc.trans (capacity_modify r s _),
      hn.trans (newest_modify r s _)⟩

/-- each bucket is changed at its own start only, and so once -/
theorem get?_modifyAll (h : r.Sound) {starts : List Int} (hnodup : starts.Nodup)
    (hdvd : ∀ s ∈ starts, r.length ∣ s) (f : Int → α → α) (t : Int) :
    (r.modifyAll starts f).get? t = if bucketAt t r.length ∈ starts then
      (r.get? t).map (f (bucketAt t r.length)) else r.get? t := by
  induction starts generalizing r with
  | nil => rfl
  | cons s starts ih =>
    obtain ⟨hs, hnodup⟩ := List.nodup_cons.mp hnodup
    have hself : bucketAt s r.length = s := bucketAt_of_dvd (hdvd s List.mem_cons_self)
    rw [modifyAll_cons, ih (h.modify s (f s)) hnodup fun s' hs' => by
      rw [length_modify]
      exact hdvd s' (List.mem_cons_of_mem s hs'), length_modify, get?_modify h, hself]
    by_cases e : bucketAt t r.length = s
    · rw [if_pos e, if_neg (e ▸ hs), if_pos (by rw [e]; exact List.mem_cons_self), e]
    · simp only [List.mem_cons, e, if_false, false_or]

theorem mapTimed_eq_modifyAll (h : r.Sound) (f : Int → α → α) :
    r.mapTimed f = r.modifyAll r.starts f := by
  obtain ⟨hsound, hl, hc, hn⟩ := modifyAll_frame h r.starts f
  refine ext_get? (h.mapTimed f) hsound hl.symm ((capacity_mapTimed r f).trans hc.symm) hn.symm ?_
  intro t ht
  have hstart : bucketAt t r.length ∈ r.starts := by
    rw [mem_starts h]
    rw [contains_mapTimed] at ht
    exact ⟨dvd_bucketAt t r.length, by simpa [contains] using ht⟩
  rw [get?_mapTimed h, get?_modifyAll h ((starts_ascending h).imp ne_of_lt)
    fun s hs => ((mem_starts h).mp hs).1, if_pos hstart]

/-! ## runs -/

variable [EmptyCollection α]

theorem covers_run {length : Int} (hl : 0 < length) (latency : Nat) (start : Int)
    (ops : List (RingOp α)) :
    ∃ newest, ((new latency length start : Ring α).run ops).Covers length latency newest := by
  have h := (shows_run hl latency start ops).covers
  rw [TimedMap.length_run, TimedMap.latency_run] at h
  exact ⟨_, h⟩

/-- after any run, going through the ring meets each start of the window once, in order, with the
item found there, and so does a change of every bucket, which is an edit of each one in turn; the
checksum and the document depend on the newest start and on the items by start only -/
theorem run_entries [Hashing] [Checksum α] [Persist α] {length : Int} (hl : 0 < length)
    (latency : Nat) (start : Int) (ops : List (RingOp α)) :
    let r := (new latency length start : Ring α).run ops
    let starts := (List.range (latency + 1)).map fun (k : Nat) => r.oldest + k * length
    r.capacity = latency + 1 ∧ r.oldest + latency * length = r.newest ∧
    (r.entries.map fun e => (e.1, some e.2)) = (starts.map fun s => (s, r.get? s)) ∧
    (∀ f, (r.mapTimed f).entries = r.entries.map fun e => (e.1, f e.1 e.2)) ∧
    (∀ f, r.mapTimed f = starts.foldl (fun r s => r.modify s (f s)) r) ∧
    ∀ latency' length' start' ops', 0 < length' →
      let r' := (new latency' length' start' : Ring α).run ops'
      r'.newest = r.newest → r'.starts = starts → (∀ s ∈ starts, r'.get? s = r.get? s) →
      Checksum.checksum r' = Checksum.checksum r ∧ r'.nodes = r.nodes := by
  intro r starts
  obtain ⟨newest, h⟩ := covers_run (α := α) hl latency start ops
  have hstarts : r.starts = starts := by
    show (List.range r.capacity).map _ = _
    rw [h.capacity_eq, h.length_eq]
  refine ⟨h.capacity_eq, ?_, ?_, entries_mapTimed h.sound, fun f => ?_, ?_⟩
  · rw [h.oldest_eq, h.newest_eq]
    ring
  · rw [← hstarts]
    exact entries_eq_starts h.sound
  · rw [mapTimed_eq_modifyAll h.sound, hstarts]
    rfl
  · intro latency' length' start' ops' hl' r' hn hs hg
    obtain ⟨newest', h'⟩ := covers_run (α := α) hl' latency' start' ops'
    have he : r'.entries = r.entries :=
      entries_congr h.sound h'.sound (hs.trans hstarts.symm) (hstarts ▸ hg)
    exact ⟨checksum_congr hn he, nodes_congr hn he⟩

/-- two buckets before zero, reached with and without a reset -/
theorem run_entries_below_zero :
    let x := (∅ : DistinctTexts).insert ⟨0, 0⟩ "a"
    let r := (new 1 60 (-200)).run [.push x (-70)]
    let r' := (new 1 60 500).run [.reset (-130), .push x (-61)]
    r.entries.map (fun e => (e.1, some e.2)) = [(-180, some ∅), (-120, some x)] ∧
      Checksum.checksum r' = Checksum.checksum r ∧ r'.nodes = r.nodes := by
  intro x r r'
  have hl : (0 : Int) < 60 := by decide
  obtain ⟨-, -, hentries, -, -, hsame⟩ := run_entries hl 1 (-200) [.push x (-70)]
  have hr : r.oldest = -180 ∧ r.newest = -120 ∧ r.get? (-180) = some ∅ ∧ r.get? (-120) = some x := by
    simp [r, run, new, perform, push, clearAhead, skippedBefore, bucketsBetween, get?, contains,
      oldest, capacity, slot, slotOf, bucketAt]
  have hr' : r'.oldest = -180 ∧ r'.newest = -120 ∧
      r'.get? (-180) = some ∅ ∧ r'.get? (-120) = some x := by
    simp [r', run, new, perform, push, reset, clear, clearAhead, skippedBefore, bucketsBetween, get?,
      contains, oldest, capacity, slot, slotOf, bucketAt]
  have hstarts : (List.range (1 + 1)).map (fun (k : Nat) => r.oldest + k * 60) = [-180, -120] := by
    rw [hr.1]
    decide
  have hstarts' : r'.starts = [-180, -120] := by
    obtain ⟨_, h⟩ := covers_run hl 1 500 [.reset (-130), .push x (-61)]
    rw [starts, h.capacity_eq, h.length_eq, hr'.1]
    decide
  refine ⟨hentries.trans ?_, hsame 1 60 500 [.reset (-130), .push x (-61)] hl
    (hr'.2.1.trans hr.2.1.symm) (hstarts'.trans hstarts.symm) ?_⟩
  · rw [hstarts, List.map_cons, List.map_singleton, hr.2.2.1, hr.2.2.2]
  · rw [hstarts, List.forall_mem_cons, List.forall_mem_singleton, hr.2.2.1, hr.2.2.2]
    exact hr'.2.2

end Ring

end EventBuckets
