import Std.Data.ExtTreeMap
import Std.Data.ExtTreeSet
import EventBuckets.Checksum

/-!
# People, attributes and pairs

People and attributes are known by small whole numbers.  Data is kept per pair of both.

* `Pair`     a person and an attribute, ordered by person first;
* `Mention`  a pair and the text of an influence;
* `PairMap`, `PairSet` maps and sets of pairs.
             They are kept in ascending order, and two of them with the same contents are equal.
-/

namespace EventBuckets

structure Pair where
  person : Nat
  attr : Nat
deriving DecidableEq, Repr

namespace Pair

instance : Ord Pair := ⟨compareLex (compareOn Pair.person) (compareOn Pair.attr)⟩

instance : Std.TransOrd Pair :=
  inferInstanceAs (Std.TransCmp (compareLex (compareOn Pair.person) (compareOn Pair.attr)))

instance : Std.LawfulEqOrd Pair where
  eq_of_compare {a b} h := by
    obtain ⟨h₁, h₂⟩ := compareLex_eq_eq.mp h
    exact Pair.mk.injEq .. ▸ ⟨Std.LawfulEqOrd.eq_of_compare h₁, Std.LawfulEqOrd.eq_of_compare h₂⟩

def hash [Hashing] (p : Pair) : UInt64 := hashPair p.person p.attr

end Pair

structure Mention where
  pair : Pair
  text : String
deriving DecidableEq, Repr

namespace Mention

instance : Ord Mention := ⟨compareLex (compareOn Mention.pair) (compareOn Mention.text)⟩

instance : Std.TransOrd Mention :=
  inferInstanceAs (Std.TransCmp (compareLex (compareOn Mention.pair) (compareOn Mention.text)))

instance : Std.LawfulEqOrd Mention where
  eq_of_compare {a b} h := by
    obtain ⟨h₁, h₂⟩ := compareLex_eq_eq.mp h
    exact Mention.mk.injEq .. ▸ ⟨Std.LawfulEqOrd.eq_of_compare h₁, Std.LawfulEqOrd.eq_of_compare h₂⟩

end Mention

/-- a map from pairs, in ascending order -/
abbrev PairMap (α : Type) := Std.ExtTreeMap Pair α compare

/-- a set of pairs, in ascending order -/
abbrev PairSet := Std.ExtTreeSet Pair compare

/-- a set of texts, in ascending order -/
abbrev TextSet := Std.ExtTreeSet String compare

end EventBuckets
