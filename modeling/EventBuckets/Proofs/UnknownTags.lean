import EventBuckets.Proofs.Slots

/-!
# Unknown tags

A tag that is not in the table makes a document no state, wherever a reading looks.  It does not
look into levels that a later one with the same tag replaces.

* `Document.walked`          a document without the contents of those levels;
* `ofDocument_walked`        it is read as the document is;
* `allKnown_of_ofDocument`   all its tags are known if it is read;
* `restore_of_unknown_tag`   so an unknown tag in it is an error.
-/

set_option linter.unusedSectionVars false

namespace EventBuckets
open Node Restore

/-! ## documents -/

/-- the parts of a gatherer without the contents of levels that a later one replaces -/
def Snapshot.walked (nodes : List Node) : List Node :=
  (keepLast Snapshot.kept nodes).map (mapLevel .series (keepLast Series.kept))

/-- a document without the contents of levels that a later one replaces -/
def Document.walked (kind : SeriesKind) (d : Document) : Document :=
  ⟨d.nodes.map (mapLevel kind.tag Snapshot.walked)⟩

theorem Series.ofNodes_keepLast (kind : SeriesKind) (c : Config) (nodes : List Node) :
    Series.ofNodes kind c (keepLast kept nodes) = Series.ofNodes kind c nodes := by
  cases kind with
  | eventRate =>
    have hlevels : Occurrences.readLevels (keepLast kept nodes) = Occurrences.readLevels nodes :=
      Occurrences.slots.foldlM_keepLast nodes _
    unfold Series.ofNodes Occurrences.ofNodes
    rw [hlevels]
  | metric =>
    have hparts : Measured.readParts (keepLast kept nodes) = Measured.readParts nodes :=
      Measured.slots.foldlM_keepLast nodes _
    unfold Series.ofNodes Measured.ofNodes
    rw [hparts]

theorem Snapshot.readParts_walked (length : Int) (nodes : List Node) :
    readParts length (walked nodes) = (readParts length nodes).map
      ((slots length).modify .series (keepLast Series.kept)) := by
  have hkept : readParts length (keepLast kept nodes) = readParts length nodes :=
    (slots length).foldlM_keepLast nodes _
  rw [← hkept]
  exact (slots length).foldlM_mapLevel (t := .series) (by simp) (keepLast Series.kept)
    (keepLast kept nodes) ⟨none, none, ⟨none, none⟩, none⟩

theorem Node.tag?_mapLevel (t : Tag) (f : List Node → List Node) (n : Node) :
    (mapLevel t f n).tag? = n.tag? := by
  cases n <;> rfl

theorem Snapshot.body_walked (kind : SeriesKind) (d : Document) :
    body kind (d.walked kind) = (body kind d).map walked := by
  obtain ⟨nodes⟩ := d
  unfold body Document.walked
  cases nodes with
  | nil => rfl
  | cons n rest =>
    simp only [List.map_cons, tag?_mapLevel]
    cases ht : n.tag? with
    | error e => rfl
    | ok t =>
      simp only [except_ok_bind]
      split
      · rfl
      next hkind =>
        have hkind : t = kind.tag := not_ne_iff.mp hkind
        cases rest with
        | cons extra rest =>
          simp only [List.map_cons, tag?_mapLevel]
          cases extra.tag? <;> rfl
        | nil =>
          cases n with
          | leaf tag text => rfl
          | level tag inner =>
            have hname : tag = kind.tag.name := hkind ▸ name_of_tag? ht
            show Except.ok (if tag = kind.tag.name then walked inner else inner) = _
            rw [if_pos hname]
            rfl

/-- the contents of a level that a later one replaces do not matter to a reading -/
theorem Snapshot.ofDocument_walked (kind : SeriesKind) (c : Config) (d : Document) :
    ofDocument kind c (d.walked kind) = ofDocument kind c d := by
  unfold ofDocument
  rw [body_walked]
  cases body kind d with
  | error e => rfl
  | ok nodes =>
    show (liftM (Except.ok (walked nodes) : Except RestoreError _) : Restore _) >>= _ = _
    rw [ok_bind, ok_bind, readParts_walked]
    cases readParts c.bucketSeconds nodes with
    | error e => rfl
    | ok s =>
      show (liftM (Except.ok ((slots _).modify .series (keepLast Series.kept) s) :
        Except RestoreError _) : Restore _) >>= _ = _
      rw [ok_bind, ok_bind]
      obtain ⟨start, earliest, levels, series⟩ := s
      cases series with
      | none => rfl
      | some inner =>
        refine bind_congr fun start => bind_congr fun counts => ?_
        show Series.ofNodes kind c (keepLast Series.kept inner) >>= _ =
          Series.ofNodes kind c inner >>= _
        rw [Series.ofNodes_keepLast]
        rfl

theorem Series.allKnown_of_ofNodes {kind : SeriesKind} {c : Config} {nodes : List Node}
    {s : Series} (h : Yields (Series.ofNodes kind c nodes) s) : AllKnown (keepLast kept nodes) := by
  cases kind with
  | eventRate =>
    obtain ⟨occurrences, h, -⟩ := h.exists_of_bind
    obtain ⟨levels, hlevels, h⟩ := h.exists_of_bind
    obtain ⟨window, h, -⟩ := h.exists_of_bind
    obtain ⟨hring, hspans⟩ := Window.allKnown_of_ofLevels
      DistinctTexts.conforms_of_restore Grammar.known_texts h
    refine Occurrences.slots.allKnown_keepLast hlevels.eq_ok fun t ht inner hinner => ?_
    fin_cases ht
    · exact hring inner hinner
    · exact hspans inner hinner
  | metric =>
    obtain ⟨measured, h, -⟩ := h.exists_of_bind
    obtain ⟨parts, hparts, h⟩ := h.exists_of_bind
    obtain ⟨window, h, -⟩ := h.exists_of_bind
    obtain ⟨hring, hspans⟩ := Window.allKnown_of_ofLevels
      Metrics.conforms_of_restore (Grammar.known_metrics false) h
    refine Measured.slots.allKnown_keepLast hparts.eq_ok fun t ht inner hinner => ?_
    fin_cases ht
    · exact hring inner hinner
    · exact hspans inner hinner

namespace Snapshot
variable {kind : SeriesKind} {c : Config} {d : Document} {s : Snapshot}

/-- all that a reading looks at has to be known -/
theorem allKnown_of_ofDocument (h : Yields (ofDocument kind c d) s) :
    AllKnown (d.walked kind).nodes := by
  obtain ⟨nodes, hnodes, h⟩ := h.exists_of_bind
  obtain ⟨p, hp, h⟩ := h.exists_of_bind
  obtain ⟨start, -, h⟩ := h.exists_of_bind
  obtain ⟨counts, hcounts, h⟩ := h.exists_of_bind
  obtain ⟨inner, hinner, h⟩ := h.exists_of_bind
  obtain ⟨series, hseries, -⟩ := h.exists_of_bind
  obtain ⟨hring, hspans⟩ := Window.allKnown_of_ofLevels
    Aggregates.conforms_of_restore (Grammar.known_aggregates false) hcounts
  have hkept := Series.allKnown_of_ofNodes hseries
  have hread : readParts c.bucketSeconds (keepLast kept nodes) = .ok p :=
    ((slots c.bucketSeconds).foldlM_keepLast nodes _).trans hp.eq_ok
  have hwalked : AllKnown (walked nodes) := by
    refine allKnown_of_forall fun m hm => ?_
    obtain ⟨n, hn, rfl⟩ := List.mem_map.mp hm
    rcases (slots c.bucketSeconds).of_mem_keepLast hread n hn with
      ⟨hknown, hne⟩ | ⟨t, ht, inner', rfl, hempty | hget⟩
    · rw [mapLevel_of_ne (hne .series (by simp))]
      exact hknown
    · rw [hempty]
      show AllKnown [t.level (if t.name = Tag.series.name then [] else [])]
      rw [ite_self]
      exact allKnown_level allKnown_nil
    · fin_cases ht
      · exact allKnown_level (hring inner' hget)
      · exact allKnown_level (hspans inner' hget)
      · have hsame : inner = inner' := Except.ok.inj (hinner.eq_ok.symm.trans (by
          show required .series p.series = _
          rw [show p.series = some inner' from hget]
          rfl))
        exact allKnown_level (hsame ▸ hkept)
  unfold Document.walked
  rw [nodes_of_body hnodes.eq_ok]
  show AllKnown [kind.tag.level (if kind.tag.name = kind.tag.name then walked nodes else nodes)]
  rw [if_pos rfl]
  exact allKnown_level hwalked

end Snapshot

namespace Gatherer

/-- the contents of a level that a later one replaces do not matter; a tag that is not in the table,
anywhere else in a document, makes it no state -/
theorem restore_of_unknown_tag (kind : SeriesKind) (c : Config) (d : Document) :
    restore kind c (d.walked kind) = restore kind c d ∧
      ∀ n ∈ subnodesOf (d.walked kind).nodes, Tag.ofName? n.name = none →
        ∃ e, restore kind c d = .error e := by
  refine ⟨?_, fun n hn hunknown => ?_⟩
  · unfold restore
    rw [Snapshot.ofDocument_walked]
  · unfold restore
    cases c.fault? kind with
    | some e => exact ⟨_, rfl⟩
    | none =>
      cases hread : (Snapshot.ofDocument kind c d).startingWith .empty with
      | mk result pool =>
        cases result with
        | error e => exact ⟨e, rfl⟩
        | ok s => exact (Snapshot.allKnown_of_ofDocument ⟨_, _, hread⟩ n hn hunknown).elim

/-- an unknown tag in the queue that counts; one in a queue before it is never met -/
theorem restore_of_unknown_tag_in_queue :
    let unknown : Node := .leaf "unknown_tag" "0"
    let d (first last : List Node) : Document := ⟨[Tag.eventRateGatherer.level
      [Tag.bucketLength.int 300, Tag.bucketStart.int 0, Tag.bucketQueue.level first,
       Tag.bucketQueue.level (Tag.latestStart.int 0 :: last), Tag.multiBucket.level [],
       Tag.series.level [Tag.bucketQueue.level [Tag.latestStart.int 0], Tag.multiBucket.level []]]]⟩
    (∃ e, restore .eventRate .default (d [] [Tag.bucket.level [Tag.time.int 0, unknown]]) =
      .error e) ∧
    (restore .eventRate .default (d [unknown] [])).toOption.isSome = true := by
  intro unknown d
  exact ⟨(restore_of_unknown_tag .eventRate .default
    (d [] [Tag.bucket.level [Tag.time.int 0, unknown]])).2 unknown (by decide +kernel) rfl,
    by decide +kernel⟩

end Gatherer

end EventBuckets
