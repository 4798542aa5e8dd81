import EventBuckets.Bucket.Aggregates

/-!
# Distinct texts of a bucket

The set of texts seen for each pair.

* `DistinctTexts`               the data;
* `DistinctTexts.insert`        adds a text to a pair;
* `DistinctTexts.personCounts`  how many different texts each person has over all attributes;
* `PairData DistinctTexts`      merging unites the sets of each pair.
-/

namespace EventBuckets

structure DistinctTexts where
  byPair : PairMap TextSet

def uniteTexts (mine theirs : TextSet) : TextSet := theirs.foldl (fun s t => s.insert t) mine

namespace DistinctTexts

instance : EmptyCollection DistinctTexts := ⟨⟨∅⟩⟩

def addTexts {κ : Type} [Ord κ] [Std.TransOrd κ] (m : Std.ExtTreeMap κ TextSet compare) (k : κ)
    (texts : TextSet) : Std.ExtTreeMap κ TextSet compare :=
  m.alter k fun old => some (uniteTexts (old.getD ∅) texts)

def insert (d : DistinctTexts) (p : Pair) (text : String) : DistinctTexts :=
  ⟨d.byPair.alter p fun old => some ((old.getD ∅).insert text)⟩

def get? (d : DistinctTexts) (p : Pair) : Option TextSet := d.byPair[p]?

def byPerson (d : DistinctTexts) : Std.ExtTreeMap Nat TextSet compare :=
  d.byPair.toList.foldl (fun m e => addTexts m e.1.person e.2) ∅

/-- the number of different texts of each person -/
def personCounts (d : DistinctTexts) : List (Nat × Nat) :=
  d.byPerson.toList.map fun (person, texts) => (person, texts.size)

def texts (d : DistinctTexts) : List String := d.byPair.toList.flatMap fun e => e.2.toList

def mergeWith (mine theirs : DistinctTexts) : DistinctTexts :=
  ⟨theirs.byPair.foldl addTexts mine.byPair⟩

def checksumOf [Hashing] (d : DistinctTexts) : UInt64 :=
  chainSorted 0 <|
    d.byPair.toList.map fun (p, texts) => chainSorted p.hash (texts.toList.map hashText)

instance [Hashing] : Checksum DistinctTexts := ⟨checksumOf⟩

def nodes (d : DistinctTexts) : List Node :=
  d.byPair.toList.map fun (p, texts) =>
    Tag.entry.level (Aggregates.pairNodes p ++ texts.toList.map Tag.text.leaf)

structure Entry where
  pid : Option Nat
  cid : Option Nat
  texts : TextSet

def readField (e : Entry) (n : Node) : Restore Entry := do
  let t ← n.tag?
  match t with
  | .pid => return { e with pid := some (← n.word t) }
  | .cid => return { e with cid := some (← n.word t) }
  | .text => do
    let text ← n.text t
    Restore.intern text
    return { e with texts := e.texts.insert text }
  | t => throw (.unexpectedTag t)

/-- takes up one entry; a pair that is repeated has the texts written last -/
def readEntry (d : DistinctTexts) (n : Node) : Restore DistinctTexts := do
  let t ← n.tag?
  if t ≠ .entry then throw (.unexpectedTag t)
  let e ← (← n.children t).foldlM readField ⟨none, none, ∅⟩
  return ⟨d.byPair.insert ⟨← required .pid e.pid, ← required .cid e.cid⟩ e.texts⟩

def ofNodes (nodes : List Node) : Restore DistinctTexts := nodes.foldlM readEntry ∅

instance : PairData DistinctTexts where
  merge := mergeWith
  persist := nodes
  restore := ofNodes
  retain keeps d := ⟨d.byPair.filter fun p _ => keeps p⟩
  isEmpty d := d.byPair.isEmpty

end DistinctTexts

end EventBuckets
