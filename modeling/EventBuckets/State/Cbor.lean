import EventBuckets.State.Document

/-!
# Documents in CBOR

The same tree as in JSON: maps with text keys, arrays of nodes, texts.  It is written with definite
lengths and the shortest heads.  Read is more: tags in front of a value are passed over, heads may
be longer than needed, arrays, maps and the texts of values may have no length and end with a stop,
names may be byte strings, bytes after the document are left alone, and unknown fields are skipped.

* `Head`              the head of an item, `readHead` reads one;
* `Document.toCbor`   the bytes;
* `Document.ofCbor?`  reads bytes back.  A document may open 256 containers inside of each other.
-/

namespace EventBuckets

/-- the head of an item; a length is missing if a stop ends the item -/
inductive Head where
  | unsigned (n : Nat)
  | negative (n : Nat)
  | bytes (length : Option Nat)
  | text (length : Option Nat)
  | array (length : Option Nat)
  | map (length : Option Nat)
  | tag (n : Nat)
  | simple (n : Nat)
  | float
  | stop

namespace Cbor

/-! ## writing -/

/-- the lowest bytes of a number, the highest one first -/
def bigEndian (width n : Nat) : List UInt8 :=
  (List.range width).map fun i => UInt8.ofNat (n >>> (8 * (width - 1 - i)))

def head (major n : Nat) : List UInt8 :=
  let first (minor : Nat) : UInt8 := UInt8.ofNat (major * 32 + minor)
  if n < 24 then [first n]
  else if n < 0x100 then first 24 :: bigEndian 1 n
  else if n < 0x10000 then first 25 :: bigEndian 2 n
  else if n < 0x100000000 then first 26 :: bigEndian 4 n
  else first 27 :: bigEndian 8 n

def text (s : String) : List UInt8 := head 3 s.utf8ByteSize ++ s.toUTF8.toList

mutual

/-- a node: its tag, and a map with its text or its nodes -/
def node : Node → List UInt8
  | .leaf tag content =>
    head 5 2 ++ text "tag" ++ text tag ++ text "value" ++ head 5 1 ++ text "value" ++ text content
  | .level tag nodes =>
    head 5 2 ++ text "tag" ++ text tag ++ text "value" ++ head 5 1 ++ text "level"
      ++ head 4 nodes.length ++ nodeList nodes

def nodeList : List Node → List UInt8
  | [] => []
  | n :: ns => node n ++ nodeList ns

end

/-! ## reading -/

abbrev Reader (α : Type) := List UInt8 → Option (α × List UInt8)

def take (n : Nat) : Reader (List UInt8) := fun bs =>
  let taken := bs.take n
  if taken.length = n then some (taken, bs.drop n) else none

def ofBigEndian (bs : List UInt8) : Nat := bs.foldl (fun n b => n * 256 + b.toNat) 0

/-- the argument of a head by its minor type; none inside if a stop ends the item -/
def argument (minor : Nat) : Reader (Option Nat) := fun bs =>
  let wide (width : Nat) :=
    (take width bs).map fun (taken, rest) => (some (ofBigEndian taken), rest)
  if minor < 24 then some (some minor, bs)
  else if minor = 24 then wide 1
  else if minor = 25 then wide 2
  else if minor = 26 then wide 4
  else if minor = 27 then wide 8
  else if minor = 31 then some (none, bs)
  else none

def otherHead (minor : Nat) (n : Option Nat) : Head :=
  match n with
  | none => .stop
  | some n => if minor ≤ 24 then .simple n else .float

def readHead : Reader Head
  | [] => none
  | b :: bs =>
    let major := b.toNat / 32
    let minor := b.toNat % 32
    (argument minor bs).bind fun (n, rest) =>
      if major = 0 then n.map fun n => (.unsigned n, rest)
      else if major = 1 then n.map fun n => (.negative n, rest)
      else if major = 2 then some (.bytes n, rest)
      else if major = 3 then some (.text n, rest)
      else if major = 4 then some (.array n, rest)
      else if major = 5 then some (.map n, rest)
      else if major = 6 then n.map fun n => (.tag n, rest)
      else some (otherHead minor n, rest)

/-- the first head that is no tag; the first argument bounds the tags -/
def untag : Nat → Reader Head
  | 0, _ => none
  | fuel + 1, bs =>
    (readHead bs).bind fun (h, rest) =>
      match h with
      | .tag _ => untag fuel rest
      | h => some (h, rest)

/-- the first head that is no tag -/
def itemHead : Reader Head := fun bs =>
  (readHead bs).bind fun (h, rest) =>
    match h with
    | .tag _ => untag rest.length rest
    | h => some (h, rest)

def repeated {α : Type} (read : Reader α) : Nat → Reader (List α)
  | 0, bs => some ([], bs)
  | n + 1, bs => do
    let (a, bs) ← read bs
    let (as, bs) ← repeated read n bs
    return (a :: as, bs)

/-- items up to a stop; the first argument bounds their number -/
def untilStop {α : Type} (read : Reader α) : Nat → Reader (List α)
  | 0, _ => none
  | fuel + 1, bs => do
    let (h, rest) ← readHead bs
    match h with
    | .stop => return ([], rest)
    | _ =>
      let (a, bs) ← read bs
      let (as, bs) ← untilStop read fuel bs
      return (a :: as, bs)

def items {α : Type} (read : Reader α) (length : Option Nat) : Reader (List α) := fun bs =>
  match length with
  | some n => repeated read n bs
  | none => untilStop read bs.length bs

def utf8? (bs : List UInt8) : Option String := String.fromUTF8? ⟨bs.toArray⟩

/-- the segments of a string without length, `nested` deep; the number bounds how many there are -/
def segments {α : Type} (ofBytes : List UInt8 → Option α) (inner : Head → Option (Option Nat)) :
    Nat → Nat → Reader (List α)
  | 0, _, _ => none
  | fuel + 1, nested, bs => do
    let (h, rest) ← readHead bs
    match h with
    | .stop =>
      if nested ≤ 1 then return ([], rest) else segments ofBytes inner fuel (nested - 1) rest
    | h =>
      match ← inner h with
      | none => segments ofBytes inner fuel (nested + 1) rest
      | some n =>
        let (taken, rest) ← take n rest
        let segment ← ofBytes taken
        let (more, rest) ← segments ofBytes inner fuel nested rest
        return (segment :: more, rest)

def textLength : Head → Option (Option Nat)
  | .text n => some n
  | _ => none

def bytesLength : Head → Option (Option Nat)
  | .bytes n => some n
  | _ => none

/-- the contents of a text after its head; each segment is a text of its own -/
def textBody (length : Option Nat) : Reader String := fun bs =>
  match length with
  | some n => do
    let (taken, rest) ← take n bs
    return (← utf8? taken, rest)
  | none =>
    (segments utf8? textLength bs.length 1 bs).map fun (parts, rest) => (String.join parts, rest)

def bytesBody (length : Option Nat) : Reader (List UInt8) := fun bs =>
  match length with
  | some n => take n bs
  | none =>
    (segments some bytesLength bs.length 1 bs).map fun (parts, rest) => (parts.flatten, rest)

def readText : Reader String := fun bs => do
  let (h, rest) ← itemHead bs
  match h with
  | .text n => textBody n rest
  | _ => none

def nameLimit : Nat := 4096

def readName : Reader (List UInt8) := fun bs => do
  let (h, rest) ← itemHead bs
  match h with
  | .text (some n) =>
    let (taken, rest) ← take n rest
    if n ≤ nameLimit ∧ (utf8? taken).isSome then return (taken, rest) else none
  | .bytes (some n) => if n ≤ nameLimit then take n rest else none
  | _ => none

/-- the tag of a large number, and that of a negative one -/
def bigTag : Nat := 2

def bigNegativeTag : Nat := 3

/-- the bytes of a large number after its tag: a byte string of at most 128 bits -/
def bigNumber? (tag : Nat) : Reader Nat := fun bs => do
  if tag ≠ bigTag ∧ tag ≠ bigNegativeTag then none
  else
    let (h, rest) ← readHead bs
    match h with
    | .bytes (some n) =>
      if n ≤ 16 then (take n rest).map fun (taken, rest) => (ofBigEndian taken, rest) else none
    | _ => none

/-- passes over an item of any kind, where `room` more containers may be opened; a tag counts as a
container, unless it makes a large number, which has 127 bits at most if it is negative -/
def skip : Nat → Reader Unit
  | room, bs => do
    let (h, rest) ← readHead bs
    match h with
    | .unsigned _ | .negative _ | .float => return ((), rest)
    | .simple n => if 20 ≤ n ∧ n ≤ 23 then return ((), rest) else none
    | .bytes n => (bytesBody n rest).map fun (_, rest) => ((), rest)
    | .text n => (textBody n rest).map fun (_, rest) => ((), rest)
    | .array n =>
      match room with
      | 0 => none
      | room + 1 => (items (skip room) n rest).map fun (_, rest) => ((), rest)
    | .map n =>
      match room with
      | 0 => none
      | room + 1 =>
        let entry : Reader Unit := fun bs => do
          let (_, bs) ← skip room bs
          skip room bs
        (items entry n rest).map fun (_, rest) => ((), rest)
    | .tag n =>
      match bigNumber? n rest with
      | some (value, rest) =>
        if n = bigNegativeTag ∧ 0x80000000000000000000000000000000 ≤ value then none
        else return ((), rest)
      | none =>
        match room with
        | 0 => none
        | room + 1 => skip room rest
    | .stop => none

/-- the nodes of a level, given how a node is read; no node is read from a byte string -/
def levelBody (readNode : Option (Reader Node)) : Reader (List Node) := fun bs => do
  let (h, rest) ← itemHead bs
  match h with
  | .array n => items (← readNode) n rest
  | .bytes n =>
    let (contents, rest) ← bytesBody n rest
    if contents.isEmpty then return ([], rest) else none
  | _ => none

inductive Content where
  | text (s : String)
  | nodes (ns : List Node)

/-- the value of a node: a map with a single member, or its name and what follows it -/
def readContent (readNode : Option (Reader Node)) : Reader Content := fun bs => do
  let (h, rest) ← itemHead bs
  let start ← match h with
    | .map (some 1) => some rest
    | .text _ => some bs
    | _ => none
  let (name, rest) ← readName start
  if name = "value".toUTF8.toList then
    (readText rest).map fun (s, rest) => (.text s, rest)
  else if name = "level".toUTF8.toList then
    (levelBody readNode rest).map fun (ns, rest) => (.nodes ns, rest)
  else none

/-- a field of a node -/
inductive Field where
  | tag (s : String)
  | value (c : Content)
  | other

/-- a field of a node, where `room` more containers may be opened -/
def readField (room : Nat) (readContent : Reader Content) : Reader Field := fun bs => do
  let (name, rest) ← readName bs
  if name = "tag".toUTF8.toList then (readText rest).map fun (s, rest) => (.tag s, rest)
  else if name = "value".toUTF8.toList then
    (readContent rest).map fun (c, rest) => (.value c, rest)
  else (skip room rest).map fun (_, rest) => (.other, rest)

def onlyTag (fields : List Field) : Option String :=
  match fields.filterMap fun | .tag s => some s | _ => none with
  | [s] => some s
  | _ => none

def onlyValue (fields : List Field) : Option Content :=
  match fields.filterMap fun | .value c => some c | _ => none with
  | [c] => some c
  | _ => none

def assemble (fields : List Field) : Option Node := do
  let tag ← onlyTag fields
  match ← onlyValue fields with
  | .text s => return .leaf tag s
  | .nodes ns => return .level tag ns

/-- a node, where `room` more containers may be opened: itself, its value, and the level in it -/
def readNode : Nat → Reader Node
  | 0, _ => none
  | 1, _ => none
  | room + 2, bs => do
    let (h, rest) ← itemHead bs
    let inner : Option (Reader Node) :=
      match room with
      | 0 => none
      | room + 1 => some (readNode room)
    match h with
    | .map n =>
      let (fields, rest) ← items (readField (room + 1) (readContent inner)) n rest
      return (← assemble fields, rest)
    | _ => none

/-- a field of a document: its nodes, or nothing known -/
def readDocumentField (room : Nat) : Reader (Option (List Node)) := fun bs => do
  let (name, rest) ← readName bs
  if name = "nodes".toUTF8.toList then
    (levelBody (some (readNode (room - 1))) rest).map fun (ns, rest) => (some ns, rest)
  else (skip room rest).map fun (_, rest) => (none, rest)

end Cbor

namespace Document

def toCbor (d : Document) : List UInt8 :=
  Cbor.head 5 1 ++ Cbor.text "nodes" ++ Cbor.head 4 d.nodes.length ++ Cbor.nodeList d.nodes

def cborRoom : Nat := 256

def ofCbor? (bytes : List UInt8) : Option Document := do
  let (h, rest) ← Cbor.itemHead bytes
  match h with
  | .map n =>
    let (fields, _) ← Cbor.items (Cbor.readDocumentField (cborRoom - 1)) n rest
    match fields.filterMap id with
    | [nodes] => return ⟨nodes⟩
    | _ => none
  | _ => none

end Document

end EventBuckets
