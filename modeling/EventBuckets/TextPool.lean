import EventBuckets.Pair

/-!
# Shared texts

The same text recurs across entities and buckets, so the pool keeps one copy of each text and hands
that copy out.  A copy is a text with the number of its allocation: two copies are the same object
in memory exactly if they have the same number.

* `SharedText`          a text and its allocation;
* `TextPool.allocate`   a new copy that the pool does not keep;
* `TextPool.get`        the kept copy of a text, allocated if there is none;
* `TextPool.canonical`  the kept copy of the text of a given copy, which is kept itself if there is
                        none;
* `TextPool.prune`      lets go of the copies nobody holds outside of the pool.
-/

namespace EventBuckets

/-- a text and the number of its allocation -/
structure SharedText where
  text : String
  copy : Nat
deriving DecidableEq, Repr

/-- the kept copies by text, and how many copies have been allocated in all -/
structure TextPool where
  copies : Std.ExtTreeMap String Nat compare
  allocated : Nat

namespace TextPool

def empty : TextPool := ⟨∅, 0⟩

/-- a new copy that is not kept -/
def allocate (s : TextPool) (text : String) : SharedText × TextPool :=
  (⟨text, s.allocated⟩, { s with allocated := s.allocated + 1 })

/-- the kept copy of a text, allocated if there is none -/
def get (s : TextPool) (text : String) : SharedText × TextPool :=
  match s.copies[text]? with
  | some copy => (⟨text, copy⟩, s)
  | none => (⟨text, s.allocated⟩, ⟨s.copies.insert text s.allocated, s.allocated + 1⟩)

/-- the kept copy of the text of `x`; if there is none, `x` is kept -/
def canonical (s : TextPool) (x : SharedText) : SharedText × TextPool :=
  match s.copies[x.text]? with
  | some copy => (⟨x.text, copy⟩, s)
  | none => (x, { s with copies := s.copies.insert x.text x.copy })

def intern (s : TextPool) (text : String) : TextPool := (s.get text).2

def size (s : TextPool) : Nat := s.copies.size

def isEmpty (s : TextPool) : Bool := s.copies.isEmpty

/-- lets go of the copies that `held` does not hold, and counts them -/
def prune (s : TextPool) (held : SharedText → Bool) : TextPool × Nat :=
  let kept := s.copies.filter fun text copy => held ⟨text, copy⟩
  ({ s with copies := kept }, s.copies.size - kept.size)

end TextPool

end EventBuckets
