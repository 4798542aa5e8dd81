import EventBuckets.Bucket.Data

/-!
# Counts of a bucket

For one bucket: the count of every pair, the pairs with explicit null records, and for each
influencing field the count of every pair and text.  A pair without count is absent.

* `Aggregates`               the data;
* `countPair`, `markNull`, `countInfluences`
                             what a record adds;
* `Aggregates.personCounts`  counts summed over attributes;
* `Aggregates.nullsOnly`     explicit nulls and nothing else;
* `PairData Aggregates`      merging adds counts and unites nulls.
-/

namespace EventBuckets

abbrev InfluenceCounts := Std.ExtTreeMap Mention Nat compare

/-- counts, explicit nulls and influences of a bucket -/
structure Aggregates where
  counts : PairMap Nat
  nulls : PairSet
  /-- one map per influencing field -/
  influencers : List InfluenceCounts

def addTo {κ : Type} [Ord κ] [Std.TransOrd κ] (m : Std.ExtTreeMap κ Nat compare) (k : κ) (n : Nat) :
    Std.ExtTreeMap κ Nat compare :=
  m.alter k fun old => some (old.getD 0 + n)

def addPositive (m : PairMap Nat) (p : Pair) (n : Nat) : PairMap Nat :=
  if 0 < n then addTo m p n else m

def addAll (mine theirs : InfluenceCounts) : InfluenceCounts :=
  theirs.foldl addTo mine

/-- adds the counts of each field, the longer list giving the number of fields -/
def addFields : List InfluenceCounts → List InfluenceCounts → List InfluenceCounts
  | [], theirs => theirs
  | mine, [] => mine
  | m :: mine, t :: theirs => addAll m t :: addFields mine theirs

/-- sums up numbers under keys -/
def sumBy {α κ : Type} [Ord κ] [Std.TransOrd κ] (key : α → κ) (number : α → Nat) (as : List α) :
    Std.ExtTreeMap κ Nat compare :=
  as.foldl (fun m a => addTo m (key a) (number a)) ∅

namespace Aggregates

instance : EmptyCollection Aggregates := ⟨⟨∅, ∅, []⟩⟩

def isEmpty (a : Aggregates) : Bool :=
  a.counts.isEmpty && a.nulls.isEmpty && a.influencers.all fun f => f.isEmpty

def countPair (a : Aggregates) (p : Pair) (n : Nat) : Aggregates :=
  { a with counts := addPositive a.counts p n }

def markNull (a : Aggregates) (p : Pair) : Aggregates := { a with nulls := a.nulls.insert p }

/-- counts an influence of a pair, if there is one -/
def countInfluence (f : InfluenceCounts) (p : Pair) (influence : Option String) (n : Nat) :
    InfluenceCounts :=
  match influence with
  | some text => if n = 0 then f else addTo f ⟨p, text⟩ n
  | none => f

/-- counts each influence in its field; there are at least as many fields as influences -/
def addToFields (p : Pair) (n : Nat) : List InfluenceCounts → List (Option String) →
    List InfluenceCounts
  | fields, [] => fields
  | [], i :: is => countInfluence ∅ p i n :: addToFields p n [] is
  | f :: fields, i :: is => countInfluence f p i n :: addToFields p n fields is

/-- counts the influences of occurrences of a pair -/
def countInfluences (a : Aggregates) (p : Pair) (influences : List (Option String)) (n : Nat) :
    Aggregates :=
  { a with influencers := addToFields p n a.influencers influences }

/-- has the pair had explicit null records only? -/
def nullsOnly (a : Aggregates) (p : Pair) : Bool := a.nulls.contains p && !a.counts.contains p

/-- the counts that are not zero, summed over attributes, by person -/
def personCounts (a : Aggregates) : List (Nat × Nat) :=
  (sumBy (fun e => e.1.person) Prod.snd a.counts.toList).toList.filter fun e => 0 < e.2

def texts (a : Aggregates) : List String :=
  a.influencers.flatMap fun f => f.toList.map fun e => e.1.text

def mergeWith (mine theirs : Aggregates) : Aggregates where
  counts := theirs.counts.foldl addPositive mine.counts
  nulls := theirs.nulls.foldl (fun s p => s.insert p) mine.nulls
  influencers := addFields mine.influencers theirs.influencers

/-- the data of the pairs that are kept -/
def keep (keeps : Pair → Bool) (a : Aggregates) : Aggregates where
  counts := a.counts.filter fun p _ => keeps p
  nulls := a.nulls.filter keeps
  influencers := a.influencers.map fun f => f.filter fun m _ => keeps m.pair

/-! ## checksum -/

def checksumOf [Hashing] (a : Aggregates) : UInt64 :=
  let counts := chainSorted 0 (a.counts.toList.map fun (p, n) => chain p.hash (hashNat n))
  let nulls := chainSorted 1 (a.nulls.toList.map Pair.hash)
  let field (f : InfluenceCounts) : UInt64 :=
    chainSorted 3 <|
      f.toList.map fun (m, n) => chain (chain m.pair.hash (hashText m.text)) (hashNat n)
  chainAll counts [nulls, chainAll 2 (a.influencers.map field)]

instance [Hashing] : Checksum Aggregates := ⟨checksumOf⟩

/-! ## state -/

def pairNodes (p : Pair) : List Node := [Tag.pid.nat p.person, Tag.cid.nat p.attr]

def nodes (a : Aggregates) : List Node :=
  [Tag.counts.level (a.counts.toList.map fun (p, n) =>
      Tag.entry.level (pairNodes p ++ [Tag.value.nat n])),
   Tag.explicitNulls.level (a.nulls.toList.map fun p => Tag.entry.level (pairNodes p)),
   Tag.influencers.level (a.influencers.map fun f =>
      Tag.influenceField.level (f.toList.map fun (m, n) =>
        Tag.entry.level
          (pairNodes m.pair ++ [Tag.influence.leaf m.text, Tag.value.nat n])))]

/-- the fields of an entry; a field that is repeated counts as written last -/
structure Entry where
  pid : Option Nat
  cid : Option Nat
  influence : Option String
  value : Option Nat

def readField (e : Entry) (n : Node) : Restore Entry := do
  let t ← n.tag?
  match t with
  | .pid => return { e with pid := some (← n.word t) }
  | .cid => return { e with cid := some (← n.word t) }
  | .influence => do
    let text ← n.text t
    Restore.intern text
    return { e with influence := some text }
  | .value => return { e with value := some (← n.word t) }
  | t => throw (.unexpectedTag t)

/-- the fields of an entry, which may have any tag -/
def readEntry (n : Node) : Restore Entry := do
  let fields ← n.children (← n.tag?)
  fields.foldlM readField ⟨none, none, none, none⟩

def Entry.pair (e : Entry) : Except RestoreError Pair := do
  return ⟨← required .pid e.pid, ← required .cid e.cid⟩

def readCount (counts : PairMap Nat) (n : Node) : Restore (PairMap Nat) := do
  let e ← readEntry n
  let value ← required .value e.value
  return counts.insert (← e.pair) value

def readNull (nulls : PairSet) (n : Node) : Restore PairSet := do
  let e ← readEntry n
  return nulls.insert (← e.pair)

def readInfluence (field : InfluenceCounts) (n : Node) : Restore InfluenceCounts := do
  let e ← readEntry n
  let value ← required .value e.value
  let text ← required .influence e.influence
  return field.insert ⟨← e.pair, text⟩ value

def readInfluenceField (fields : List InfluenceCounts) (n : Node) :
    Restore (List InfluenceCounts) := do
  let t ← n.tag?
  if t ≠ .influenceField then throw (.unexpectedTag t)
  return fields ++ [← (← n.children t).foldlM readInfluence ∅]

def readPart (a : Aggregates) (n : Node) : Restore Aggregates := do
  let t ← n.tag?
  match t with
  | .counts => return { a with counts := ← (← n.children t).foldlM readCount a.counts }
  | .explicitNulls => return { a with nulls := ← (← n.children t).foldlM readNull a.nulls }
  | .influencers =>
    return { a with influencers := ← (← n.children t).foldlM readInfluenceField a.influencers }
  | t => throw (.unexpectedTag t)

def ofNodes (nodes : List Node) : Restore Aggregates := nodes.foldlM readPart ∅

instance : PairData Aggregates where
  merge := mergeWith
  persist := nodes
  restore := ofNodes
  retain := keep
  isEmpty := isEmpty

end Aggregates

end EventBuckets
