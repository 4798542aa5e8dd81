import EventBuckets.Gatherer

/-!
# The state of a gatherer

* `Snapshot`           the part of a gatherer that is written and summed up;
* `Snapshot.document`  the document, one level with the tag of the kind;
* `Gatherer.restore`   the gatherer that a document describes.  The configuration is not written: it
                       has to be given, and the bucket length and the span lengths have to be the
                       same ones.
-/

namespace EventBuckets

structure Snapshot where
  length : Int
  start : Int
  earliest : Option Int
  counts : Window Aggregates
  series : Series

namespace Snapshot

def kind (s : Snapshot) : SeriesKind := s.series.kind

instance [Hashing] : Checksum Snapshot where
  checksum s :=
    chainAll (hashTime s.length)
      [hashTime s.start, hashOptionTime s.earliest, checksum s.counts, checksum s.series]

def nodes (s : Snapshot) : List Node :=
  [Tag.bucketLength.int s.length, Tag.bucketStart.int s.start]
    ++ s.earliest.toList.map Tag.earliestTime.int
    ++ s.counts.nodes
    ++ [Tag.series.level s.series.nodes]

def document (s : Snapshot) : Document := ⟨[s.kind.tag.level s.nodes]⟩

/-- the parts of a written state; a part that is repeated counts as written last -/
structure Parts where
  start : Option Int
  earliest : Option Int
  levels : Window.Levels
  series : Option (List Node)

/-- takes up one part, where buckets have the given length -/
def readPart (length : Int) (s : Parts) (n : Node) : Except RestoreError Parts := do
  let t ← n.tag?
  match t with
  | .bucketLength => do
    let found ← n.time t
    if found = length then return s else throw (.invalidValue t (toString found))
  | .bucketStart => return { s with start := some (← n.time t) }
  | .earliestTime => return { s with earliest := some (← n.time t) }
  | .bucketQueue => return { s with levels := { s.levels with ring := some (← n.children t) } }
  | .multiBucket => return { s with levels := { s.levels with spans := some (← n.children t) } }
  | .series => return { s with series := some (← n.children t) }
  | t => throw (.unexpectedTag t)

def readParts (length : Int) (nodes : List Node) : Except RestoreError Parts :=
  nodes.foldlM (readPart length) ⟨none, none, ⟨none, none⟩, none⟩

/-- the nodes of the one level of a document, which has the tag of the kind -/
def body (kind : SeriesKind) (d : Document) : Except RestoreError (List Node) :=
  match d.nodes with
  | [] => .error (.missingTag kind.tag)
  | n :: rest => do
    let t ← n.tag?
    if t ≠ kind.tag then throw (.kindMismatch kind.tag t)
    match rest with
    | extra :: _ => throw (.unexpectedTag (← extra.tag?))
    | [] => n.children t

def ofDocument (kind : SeriesKind) (config : Config) (d : Document) : Restore Snapshot := do
  let s ← readParts config.bucketSeconds (← body kind d)
  let start ← required .bucketStart s.start
  let counts ← Window.ofLevels config s.levels
  let series ← Series.ofNodes kind config (← required .series s.series)
  return ⟨config.bucketSeconds, start, s.earliest, counts, series⟩

end Snapshot

namespace Gatherer

/-- the part of a gatherer that is written -/
def snapshot (g : Gatherer) : Snapshot := ⟨g.length, g.start, g.earliest, g.counts, g.series⟩

instance [Hashing] : Checksum Gatherer := ⟨fun g => checksum g.snapshot⟩

def document (g : Gatherer) : Document := g.snapshot.document

/-- room for the pairs that single buckets have counted -/
def boundsOf (counts : Window Aggregates) : IdBounds :=
  (counts.ring.slots.toList.flatMap fun b => b.counts.keys).foldl IdBounds.widen ⟨0, 0⟩

def ofSnapshot (config : Config) (s : Snapshot) (pool : TextPool) : Gatherer :=
  ⟨config, s.start, s.earliest, s.counts, s.series, pool, boundsOf s.counts⟩

/-- the gatherer of a kind that a document describes -/
def restore (kind : SeriesKind) (config : Config) (d : Document) : Except RestoreError Gatherer :=
  match config.fault? kind with
  | some e => .error (.invalidConfiguration e)
  | none =>
    match (Snapshot.ofDocument kind config d).startingWith .empty with
    | (.ok s, pool) => .ok (ofSnapshot config s pool)
    | (.error e, _) => .error e

end Gatherer

end EventBuckets
