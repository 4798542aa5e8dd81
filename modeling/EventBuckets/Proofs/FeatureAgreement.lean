import EventBuckets.Gatherer.Queries
import EventBuckets.Proofs.Coherence

/-!
# The features of an interval agree

The numbers by person and those by pair come from the counts of an interval, the numbers of distinct
texts from its series data.  Each is a list of its own, but they tell of the same people.

* `Tabulates`             a list of positive numbers in strictly ascending order of its keys;
* `numberOf`              the numbers of the pairs of a person, summed up;
* `DistinctTexts.textsOf` the texts of a person over all attributes;
* `Aggregates.mem_personCounts`, `DistinctTexts.mem_personCounts`
                          which numbers by person the two kinds of data come to;
* `personCounts_le`       a person has no more texts than counts;
* `CountsAgree`           how the four lists of an interval go together;
* `readouts_agree`        they do after every run, and with the queries for a single bucket.
-/

set_option linter.unusedSectionVars false

namespace EventBuckets

/-! ## lists of numbers by key -/

/-- the keys are strictly ascending, and the numbers positive -/
structure Tabulates {κ : Type} [Ord κ] (es : List (κ × Nat)) : Prop where
  ascending : es.Pairwise fun e e' => compare e.1 e'.1 = .lt
  positive : ∀ e ∈ es, 0 < e.2

/-- the numbers of the pairs of a person, summed up -/
def numberOf (person : Nat) (es : List (Pair × Nat)) : Nat :=
  ((es.filter fun e => e.1.person = person).map Prod.snd).sum

/-- a sum over different keys is at most another one that has as much under each of them -/
theorem sum_le_sum_of_keys {κ α : Type} {f : α → Nat} {as : List (κ × α)} {bs : List (κ × Nat)}
    (hkeys : (as.map Prod.fst).Nodup) (h : ∀ e ∈ as, ∃ n, (e.1, n) ∈ bs ∧ f e.2 ≤ n) :
    (as.map fun e => f e.2).sum ≤ (bs.map Prod.snd).sum := by
  induction as generalizing bs with
  | nil => exact Nat.zero_le _
  | cons e as ih =>
    obtain ⟨n, hn, hle⟩ := h e List.mem_cons_self
    obtain ⟨before, after, rfl⟩ := List.append_of_mem hn
    rw [List.map_cons, List.nodup_cons] at hkeys
    -- the other keys are found without the entry of this one
    have hothers : ∀ e' ∈ as, ∃ m, (e'.1, m) ∈ before ++ after ∧ f e'.2 ≤ m := by
      intro e' he'
      obtain ⟨m, hm, hle'⟩ := h e' (List.mem_cons_of_mem _ he')
      refine ⟨m, ?_, hle'⟩
      rcases List.mem_append.mp hm with hm | hm
      · exact List.mem_append_left _ hm
      · rcases List.mem_cons.mp hm with heq | hm
        · exact absurd (List.mem_map.mpr ⟨e', he', (Prod.mk.inj heq).1⟩) hkeys.1
        · exact List.mem_append_right _ hm
    have hrest := ih hkeys.2 hothers
    simp only [List.map_cons, List.map_append, List.sum_cons, List.sum_append] at hrest ⊢
    omega

/-! ## counts -/

namespace Aggregates
variable {a : Aggregates}

theorem Coherent.tabulates (h : a.Coherent) : Tabulates a.counts.toList where
  ascending := Std.ExtTreeMap.ordered_keys_toList
  positive e he := h.positive e.1 e.2 (Std.ExtTreeMap.mem_toList_iff_getElem?_eq_some.mp he)

theorem tabulates_personCounts (a : Aggregates) : Tabulates a.personCounts where
  ascending := Std.ExtTreeMap.ordered_keys_toList.sublist List.filter_sublist
  positive _ he := of_decide_eq_true (List.mem_filter.mp he).2

theorem mem_personCounts (a : Aggregates) (person n : Nat) :
    (person, n) ∈ a.personCounts ↔ 0 < n ∧ n = numberOf person a.counts.toList := by
  have hsum := getD_sumBy (fun e : Pair × Nat => e.1.person) Prod.snd a.counts.toList person
  unfold personCounts numberOf
  rw [List.mem_filter, Std.ExtTreeMap.mem_toList_iff_getElem?_eq_some, decide_eq_true_eq, ← hsum]
  generalize (sumBy (fun e : Pair × Nat => e.1.person) Prod.snd a.counts.toList)[person]? = o
  cases o with
  | none =>
    simp only [reduceCtorEq, false_and, Option.getD_none, false_iff]
    omega
  | some m => simp [and_comm, eq_comm]

end Aggregates

/-! ## distinct texts -/

namespace DistinctTexts
variable {d : DistinctTexts} {a : Aggregates}

/-- the texts of a person over all attributes -/
def textsOf (d : DistinctTexts) (person : Nat) : List String :=
  (d.byPair.toList.filter fun e => e.1.person = person).flatMap fun e => e.2.toList

theorem mem_textsOf (person : Nat) (text : String) :
    text ∈ d.textsOf person ↔ ∃ e ∈ d.byPair.toList, e.1.person = person ∧ text ∈ e.2 := by
  unfold textsOf
  simp [and_assoc]

theorem mem_byPerson (d : DistinctTexts) (person : Nat) :
    (d.byPerson[person]?.isSome = true ↔ ∃ e ∈ d.byPair.toList, e.1.person = person) ∧
      ∀ text, (∃ texts, d.byPerson[person]? = some texts ∧ text ∈ texts) ↔
        text ∈ d.textsOf person := by
  have hfold : d.byPerson = (d.byPair.toList.map fun e => (e.1.person, e.2)).foldl
      (fun m e => addTexts m e.1 e.2) ∅ := by
    rw [List.foldl_map]
    rfl
  obtain ⟨hlisted, hholds⟩ :=
    holds_foldl_addTexts (d.byPair.toList.map fun e => (e.1.person, e.2)) ∅ person
  rw [← hfold] at hlisted hholds
  simp only [Std.ExtTreeMap.getElem?_empty, Option.isSome_none, Bool.false_eq_true, reduceCtorEq,
    false_and, exists_false, false_or, List.mem_map,
    exists_exists_and_eq_and] at hlisted hholds
  exact ⟨hlisted, fun text => (hholds text).trans (mem_textsOf person text).symm⟩

/-- a person that is listed has as many texts as there are different ones -/
theorem size_of_byPerson {person : Nat} {texts : TextSet}
    (h : d.byPerson[person]? = some texts) :
    texts.size = (d.textsOf person).dedup.length := by
  have hmem (text : String) : text ∈ texts ↔ text ∈ d.textsOf person := by
    rw [← (d.mem_byPerson person).2 text, h]
    simp
  rw [← Std.ExtTreeSet.length_toList]
  refine ((List.perm_ext_iff_of_nodup (nodup_toList texts)
    (List.nodup_dedup _)).mpr fun text => ?_).length_eq
  rw [Std.ExtTreeSet.mem_toList, List.mem_dedup]
  exact hmem text

/-- a pair that is listed has a text, so the people that are listed are those with texts -/
theorem mem_personCounts (h : d.Within a) (person n : Nat) :
    (person, n) ∈ d.personCounts ↔ 0 < n ∧ n = (d.textsOf person).dedup.length := by
  have hmem : (person, n) ∈ d.personCounts ↔
      ∃ texts, d.byPerson[person]? = some texts ∧ texts.size = n := by
    unfold personCounts
    simp [Std.ExtTreeMap.mem_toList_iff_getElem?_eq_some]
  rw [hmem]
  constructor
  · rintro ⟨texts, htexts, rfl⟩
    refine ⟨?_, size_of_byPerson htexts⟩
    obtain ⟨⟨p, ts⟩, he, hperson⟩ := (d.mem_byPerson person).1.mp (by rw [htexts]; rfl)
    obtain ⟨-, -, -, hsome, -⟩ := h p ts (Std.ExtTreeMap.mem_toList_iff_getElem?_eq_some.mp he)
    rw [← Std.ExtTreeSet.isEmpty_toList] at hsome
    obtain ⟨text, htext⟩ := List.exists_mem_of_ne_nil _ (List.isEmpty_eq_false_iff.mp hsome)
    rw [size_of_byPerson htexts]
    exact List.length_pos_of_mem
      (List.mem_dedup.mpr ((mem_textsOf person text).mpr ⟨_, he, hperson, Std.ExtTreeSet.mem_toList.mp htext⟩))
  · rintro ⟨hpos, rfl⟩
    obtain ⟨text, htext⟩ := List.exists_mem_of_length_pos hpos
    obtain ⟨texts, htexts, -⟩ :=
      ((d.mem_byPerson person).2 text).mpr (List.mem_dedup.mp htext)
    exact ⟨texts, htexts, size_of_byPerson htexts⟩

theorem tabulates_personCounts (h : d.Within a) : Tabulates d.personCounts where
  ascending := List.pairwise_map.mpr Std.ExtTreeMap.ordered_keys_toList
  positive e he := ((mem_personCounts h e.1 e.2).mp he).1

/-- the texts of a person come from pairs that are counted as often at least -/
theorem length_textsOf_le (h : d.Within a) (person : Nat) :
    (d.textsOf person).dedup.length ≤ numberOf person a.counts.toList := by
  have hkeys : ((d.byPair.toList.filter fun e => e.1.person = person).map Prod.fst).Nodup :=
    (nodup_keys_toList d.byPair).sublist (List.filter_sublist.map Prod.fst)
  calc (d.textsOf person).dedup.length
      ≤ (d.textsOf person).length := (List.dedup_sublist _).length_le
    _ = ((d.byPair.toList.filter fun e => e.1.person = person).map fun e => e.2.size).sum := by
      unfold textsOf
      rw [List.length_flatMap]
      simp only [Std.ExtTreeSet.length_toList]
    _ ≤ numberOf person a.counts.toList := by
      refine sum_le_sum_of_keys hkeys fun e he => ?_
      obtain ⟨hmem, hperson⟩ := List.mem_filter.mp he
      obtain ⟨n, hn, -, -, hle⟩ :=
        h e.1 e.2 (Std.ExtTreeMap.mem_toList_iff_getElem?_eq_some.mp hmem)
      exact ⟨n, List.mem_filter.mpr
        ⟨Std.ExtTreeMap.mem_toList_iff_getElem?_eq_some.mpr hn, hperson⟩, hle⟩

/-- a person with texts has a count, which is not below their number -/
theorem personCounts_le (h : d.Within a) {person n : Nat} (hn : (person, n) ∈ d.personCounts) :
    ∃ m, (person, m) ∈ a.personCounts ∧ n ≤ m := by
  obtain ⟨hpos, rfl⟩ := (mem_personCounts h person n).mp hn
  have hle := length_textsOf_le h person
  exact ⟨_, (a.mem_personCounts person _).mpr ⟨hpos.trans_le hle, rfl⟩, hle⟩

end DistinctTexts

/-! ## windows -/

/-- what two windows have of an interval is related, a single bucket or a span alike -/
theorem Window.Alongside.get? {α β : Type} {R : α → β → Prop} {w : Window α} {w' : Window β}
    [PairData α] [PairData β] (h : w.Alongside R w') (hlength : w'.ring.length = w.ring.length)
    (t length : Int) : Option.Rel R (w.get? t length) (w'.get? t length) := by
  unfold Window.get?
  rw [hlength]
  split
  · exact h.buckets t
  · have hspan := h.spans length
    unfold Spans.get?
    generalize w.spans.byLength[length]? = o at hspan
    generalize w'.spans.byLength[length]? = o' at hspan
    cases hspan with
    | none => exact .none
    | some hopen =>
      cases hopen with
      | none => exact .none
      | some hsame =>
        simp only [hsame.1]
        split
        · exact .some hsame.2
        · exact .none

/-! ## features -/

/-- the counts by pair, those by person, the ones and the numbers of distinct texts of an interval
with the given texts go together -/
structure CountsAgree (pairs : List (Pair × Nat)) (people ones uniques : List (Nat × Nat))
    (d : DistinctTexts) : Prop where
  tabulates_pairs : Tabulates pairs
  tabulates_people : Tabulates people
  tabulates_ones : Tabulates ones
  tabulates_uniques : Tabulates uniques
  people_sum : ∀ person n, (person, n) ∈ people ↔ 0 < n ∧ n = numberOf person pairs
  ones_eq : ones = people.map fun e => (e.1, 1)
  uniques_le : ∀ person n, (person, n) ∈ uniques → ∃ m, (person, m) ∈ people ∧ n ≤ m
  uniques_distinct : ∀ person n,
    (person, n) ∈ uniques ↔ 0 < n ∧ n = (d.textsOf person).dedup.length

theorem countsAgree {a : Aggregates} {d : DistinctTexts} (ha : a.Coherent) (hd : d.Within a) :
    CountsAgree a.counts.toList a.personCounts (a.personCounts.map fun e => (e.1, 1))
      d.personCounts d where
  tabulates_pairs := ha.tabulates
  tabulates_people := a.tabulates_personCounts
  tabulates_ones := by
    refine ⟨List.pairwise_map.mpr a.tabulates_personCounts.ascending, fun e he => ?_⟩
    obtain ⟨e', -, rfl⟩ := List.mem_map.mp he
    exact Nat.one_pos
  tabulates_uniques := DistinctTexts.tabulates_personCounts hd
  people_sum := a.mem_personCounts
  ones_eq := rfl
  uniques_le _ _ hn := DistinctTexts.personCounts_le hd hn
  uniques_distinct := DistinctTexts.mem_personCounts hd

/-- the features of occurrences, as they are read out -/
def Feature.counting : List Feature :=
  [.countByPerson, .nonZeroCountByPerson, .uniqueCountByPerson, .countByPair]

/-- a valid configuration has no features of measurements beside those of occurrences -/
theorem Config.featuresFor_eq {c : Config} (hv : c.fault? .eventRate = none)
    (hall : ∀ f ∈ Feature.counting, f ∈ c.features) :
    c.featuresFor .eventRate = Feature.counting := by
  have hsome : ¬c.features.isEmpty = true := by
    simpa using List.ne_nil_of_mem (hall .countByPair (by decide))
  have hmem (f : Feature) : f ∈ c.features ↔ f ∈ Feature.counting := by
    refine ⟨fun hf => ?_, hall f⟩
    have hkind := kind_of_valid hv hf
    cases f <;> first | decide | cases hkind
  unfold featuresFor
  rw [if_neg hsome]
  simp only [hmem]
  decide

/-- the four features of an interval, by the data that they come from -/
theorem Occurrences.readouts_counting (o : Occurrences) (a : Aggregates) {d : DistinctTexts}
    {t length : Int} (hd : o.window.get? t length = some d) :
    (Feature.counting.filterMap fun f => (o.readout? f t length a).map fun values => (f, values)) =
      [(.countByPerson, .personCounts a.personCounts),
        (.nonZeroCountByPerson, .personCounts (a.personCounts.map fun e => (e.1, 1))),
        (.uniqueCountByPerson, .personCounts d.personCounts),
        (.countByPair, .pairCounts a.counts.toList)] := by
  simp [Feature.counting, readout?, hd]

namespace Gatherer
variable {g : Gatherer} {c : Config} {t length : Int}

theorem SharesRecords.countsAgree (h : g.SharesRecords) (hs : g.Sound .eventRate c) {a : Aggregates}
    (ha : g.counts.get? t length = some a) :
    ∃ o d, g.series = .occurrences o ∧ o.window.get? t length = some d ∧
      CountsAgree a.counts.toList a.personCounts (a.personCounts.map fun e => (e.1, 1))
        d.personCounts d := by
  obtain ⟨o, ho, window⟩ := hs.series.exists_occurrences
  have halong := h.coherent
  unfold Coherent at halong
  rw [ho] at halong
  have hrel := Window.Alongside.get? halong
    (window.ring.length_eq.trans hs.counts.ring.length_eq.symm) t length
  rw [ha] at hrel
  generalize hd : o.window.get? t length = found at hrel
  cases hrel with
  | @some _ d hagree => exact ⟨o, d, ho, hd, EventBuckets.countsAgree hagree.1 hagree.2⟩

/-- the features of an interval go together, and with what is asked of a single bucket -/
theorem readouts_agree (hr : Reachable .eventRate c g) (hs : c.bucketLength.secs.toNat < 2 ^ 63)
    (hall : ∀ f ∈ Feature.counting, f ∈ c.features) (hne : g.readouts t length ≠ []) :
    ∃ o d pairs people ones uniques, g.series = .occurrences o ∧
      o.window.get? t length = some d ∧
      g.readouts t length =
        [(.countByPerson, .personCounts people), (.nonZeroCountByPerson, .personCounts ones),
          (.uniqueCountByPerson, .personCounts uniques), (.countByPair, .pairCounts pairs)] ∧
      CountsAgree pairs people ones uniques d ∧
      (length = g.length → pairs = g.pairCounts t ∧ people = g.personCounts t) := by
  have hsound := hr.sound hs
  have hshares : g.SharesRecords := by
    obtain ⟨time, g₀, ops, hnew, rfl⟩ := hr
    exact (sharesRecords_new hs hnew).run (sound_new hs hnew) ops
  obtain ⟨a, ha⟩ : ∃ a, g.counts.get? t length = some a := by
    refine Option.ne_none_iff_exists'.mp fun hnone => hne ?_
    unfold readouts
    rw [hnone]
  obtain ⟨o, d, ho, hd, hagree⟩ := hshares.countsAgree hsound ha
  have hfeatures : g.features = Feature.counting := by
    unfold features
    rw [hsound.config_eq, hsound.kind_eq]
    exact Config.featuresFor_eq hsound.valid hall
  refine ⟨o, d, _, _, _, _, ho, hd, ?_, hagree, fun hlength => ?_⟩
  · unfold readouts
    rw [ha, ho, hfeatures]
    exact o.readouts_counting a hd
  · have hbucket : g.bucket? t = some a := by
      unfold Window.get? at ha
      rwa [if_pos (hlength.trans (hsound.length_eq.trans hsound.counts.ring.length_eq.symm))] at ha
    unfold pairCounts personCounts
    rw [hbucket]
    exact ⟨rfl, rfl⟩

/-- a text of two attributes of a person is one text in a span, and another person has none -/
theorem readouts_agree_span :
    let c : Config := { Config.default with
      latencyBuckets := 1, multiBucketLengths := [.ofSecs 600], features := Feature.counting }
    let d : Directory := ⟨fun _ => .active, fun _ => .active⟩
    let e (person attr count : Nat) (text : Option String) : Event :=
      ⟨some 310, some person, some attr, [], some count, text, [], false⟩
    let ops : List Op := [.add d (e 7 2 2 (some "home")), .add d (e 7 3 1 (some "home")),
      .add d (e 8 2 1 none), .sample 300]
    ∃ g o texts, new .eventRate c 300 = .ok g ∧ (g.run ops).series = .occurrences o ∧
      o.window.get? 0 600 = some texts ∧
      (g.run ops).readouts 0 600 =
        [(.countByPerson, .personCounts [(7, 3), (8, 1)]),
          (.nonZeroCountByPerson, .personCounts [(7, 1), (8, 1)]),
          (.uniqueCountByPerson, .personCounts [(7, 1)]),
          (.countByPair, .pairCounts [(⟨7, 2⟩, 2), (⟨7, 3⟩, 1), (⟨8, 2⟩, 1)])] ∧
      CountsAgree [(⟨7, 2⟩, 2), (⟨7, 3⟩, 1), (⟨8, 2⟩, 1)] [(7, 3), (8, 1)] [(7, 1), (8, 1)]
        [(7, 1)] texts := by
  intro c d e ops
  obtain ⟨g, hg⟩ : ∃ g, new .eventRate c 300 = .ok g := ⟨_, new_eq (by decide) 300⟩
  have hreadouts : (g.run ops).readouts 0 600 =
      [(.countByPerson, .personCounts [(7, 3), (8, 1)]),
        (.nonZeroCountByPerson, .personCounts [(7, 1), (8, 1)]),
        (.uniqueCountByPerson, .personCounts [(7, 1)]),
        (.countByPair, .pairCounts [(⟨7, 2⟩, 2), (⟨7, 3⟩, 1), (⟨8, 2⟩, 1)])] := by
    rw [new_eq (by decide)] at hg
    obtain rfl := Except.ok.inj hg
    decide +kernel
  have hne : (g.run ops).readouts 0 600 ≠ [] := by
    rw [hreadouts]
    exact List.cons_ne_nil _ _
  obtain ⟨o, texts, pairs, people, ones, uniques, ho, htexts, heq, hagree, -⟩ :=
    readouts_agree ⟨300, g, ops, hg, rfl⟩ (by decide) (by decide) hne
  rw [hreadouts] at heq
  simp only [List.cons.injEq, Prod.mk.injEq, Readout.personCounts.injEq,
    Readout.pairCounts.injEq, true_and, and_true] at heq
  obtain ⟨rfl, rfl, rfl, rfl⟩ := heq
  exact ⟨g, o, texts, hg, ho, htexts, hreadouts, hagree⟩

end Gatherer

end EventBuckets
