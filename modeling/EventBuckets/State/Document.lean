import EventBuckets.State.Tag
import EventBuckets.TextPool
import EventBuckets.Text.Number

/-!
# Documents of state

A document is a sequence of nodes; a node has a tag and holds a text or a level of further nodes.
Texts are read as numbers only where a number is expected.

* `Node`, `Document`  the tree;
* `Node.tag?`         the tag of a node, an error if there is no such tag;
* `Node.text`, `Node.word`, `Node.time`, `Node.float`, `Node.floats`
                      what a leaf holds;
* `Node.children`     what a level holds;
* `Restore`           reading state.  The text pool is kept even if the reading fails.
-/

namespace EventBuckets

inductive Node where
  | leaf (tag : String) (text : String)
  | level (tag : String) (nodes : List Node)

structure Document where
  nodes : List Node

/-! ## equality -/

mutual

def Node.decEq : (a b : Node) → Decidable (a = b)
  | .leaf t x, .leaf u y =>
    if h : t = u ∧ x = y then isTrue (h.1 ▸ h.2 ▸ rfl)
    else isFalse fun e => h (by injection e; exact ⟨‹_›, ‹_›⟩)
  | .level t xs, .level u ys =>
    if h : t = u then
      match Node.decEqList xs ys with
      | isTrue e => isTrue (h ▸ e ▸ rfl)
      | isFalse e => isFalse fun e' => e (by injection e')
    else isFalse fun e => h (by injection e)
  | .leaf .., .level .. => isFalse nofun
  | .level .., .leaf .. => isFalse nofun

def Node.decEqList : (as bs : List Node) → Decidable (as = bs)
  | [], [] => isTrue rfl
  | a :: as, b :: bs =>
    match Node.decEq a b, Node.decEqList as bs with
    | isTrue e, isTrue es => isTrue (e ▸ es ▸ rfl)
    | isFalse e, _ => isFalse fun h => e (by injection h)
    | _, isFalse es => isFalse fun h => es (by injection h)
  | [], _ :: _ => isFalse nofun
  | _ :: _, [] => isFalse nofun

end

instance : DecidableEq Node := Node.decEq

deriving instance DecidableEq for Document

/-! ## writing -/

def Tag.leaf (t : Tag) (text : String) : Node := .leaf t.name text

def Tag.level (t : Tag) (nodes : List Node) : Node := .level t.name nodes

def Tag.nat (t : Tag) (n : Nat) : Node := t.leaf (toString n)

def Tag.int (t : Tag) (n : Int) : Node := t.leaf (toString n)

/-- floats with commas between -/
def joinFloats (xs : List Binary64) : String :=
  String.ofList (List.intercalate [','] (xs.map floatChars))

/-! ## reading -/

/-- the parts of a text between its commas; an empty text has one part -/
def splitCommas : List Char → List (List Char)
  | [] => [[]]
  | ',' :: cs => [] :: splitCommas cs
  | c :: cs =>
    match splitCommas cs with
    | part :: parts => (c :: part) :: parts
    | [] => [[c]]

namespace Node

def name : Node → String
  | leaf tag _ => tag
  | level tag _ => tag

def tag? (n : Node) : Except RestoreError Tag :=
  match Tag.ofName? n.name with
  | some t => .ok t
  | none => .error (.unrecognizedTag n.name)

/-- the text of a leaf with the tag `t` -/
def text (t : Tag) : Node → Except RestoreError String
  | leaf _ text => .ok text
  | level .. => .error (.expectedValue t)

/-- the nodes of a level with the tag `t` -/
def children (t : Tag) : Node → Except RestoreError (List Node)
  | level _ nodes => .ok nodes
  | leaf .. => .error (.expectedLevel t)

/-- the text of a leaf as `read` reads it -/
def parse {α : Type} (read : String → Option α) (t : Tag) (n : Node) : Except RestoreError α := do
  let text ← n.text t
  match read text with
  | some a => .ok a
  | none => .error (.invalidValue t text)

def word : Tag → Node → Except RestoreError Nat := parse readWord

def time : Tag → Node → Except RestoreError Int := parse readTime

def float : Tag → Node → Except RestoreError Binary64 := parse readFloat

/-- floats with commas between; an empty text is an empty list -/
def readFloats (text : String) : Option (List Binary64) :=
  if text.isEmpty then some [] else (splitCommas text.toList).mapM readFloatChars

def floats : Tag → Node → Except RestoreError (List Binary64) := parse readFloats

end Node

/-- a part that has to be there -/
def required {α : Type} (t : Tag) : Option α → Except RestoreError α
  | some a => .ok a
  | none => .error (.missingTag t)

/-! ## reading state -/

/-- reads state and keeps the texts it meets, also when it fails -/
abbrev Restore (α : Type) := ExceptT RestoreError (StateM TextPool) α

namespace Restore

def ofExcept {α : Type} (x : Except RestoreError α) : Restore α := ExceptT.mk (pure x)

instance : MonadLift (Except RestoreError) (ExceptT RestoreError (StateM TextPool)) :=
  ⟨ofExcept⟩

def intern (text : String) : Restore Unit := modify fun s => s.intern text

/-- the result and the pool afterwards -/
def startingWith {α : Type} (x : Restore α) (s : TextPool) : Except RestoreError α × TextPool :=
  x.run.run s

end Restore

/-- data that is written as nodes and read back -/
class Persist (α : Type) where
  persist : α → List Node
  restore : List Node → Restore α

export Persist (persist restore)

end EventBuckets
