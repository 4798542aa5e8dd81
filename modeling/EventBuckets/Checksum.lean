import EventBuckets.Binary64

/-!
# Checksums

Checksums are words of 64 bits, and all arithmetic on them wraps.  The hash of single values is
whatever a program takes; contents without an order are sorted by hash first, so a checksum never
depends on how a map was built.

* `Hashing`                  a hash, by its states: it takes words and bytes and ends with a word;
* `hashWord`, `hashTime`, `hashText`, `hashFloat`, `hashOptionTime`, `hashPair`
                             hashes of single values;
* `chain`                    folds a hash into a seed;
* `chainAll`, `chainSorted`  the hashes of a sequence, and of contents without an order.

`chainSorted_perm` says that contents listed in another order fold alike.
-/

namespace EventBuckets

/-- a hash, which takes the words and bytes of a value one after the other -/
class Hashing where
  State : Type
  empty : State
  word : State → UInt64 → State
  byte : State → UInt8 → State
  bytes : State → List UInt8 → State
  finish : State → UInt64

/-! ## hashes of single values -/

def hashWord [h : Hashing] (word : UInt64) : UInt64 := h.finish (h.word h.empty word)

def hashNat [Hashing] (n : Nat) : UInt64 := hashWord (UInt64.ofNat n)

/-- a signed number as a word in two's complement -/
def timeWord (t : Int) : UInt64 := (Int64.ofInt t).toUInt64

def hashTime [Hashing] (t : Int) : UInt64 := hashWord (timeWord t)

/-- nothing is a zero, a time follows a one -/
def hashOptionTime [h : Hashing] : Option Int → UInt64
  | none => hashWord 0
  | some t => h.finish (h.word (h.word h.empty 1) (timeWord t))

def hashText [h : Hashing] (text : String) : UInt64 :=
  h.finish (h.byte (h.bytes h.empty text.toUTF8.toList) 0xff)

def hashPair [h : Hashing] (a b : Nat) : UInt64 :=
  h.finish (h.word (h.word h.empty (UInt64.ofNat a)) (UInt64.ofNat b))

/-- a float by its bits, so the two zeros differ -/
def hashFloat [Hashing] (x : Binary64) : UInt64 := hashWord x.bits

/-! ## hashes of contents -/

/-- a hash folded into a seed -/
def chain (seed hash : UInt64) : UInt64 :=
  seed ^^^
    (hash + (0x9e3779b97f4a7c15 : UInt64) + (seed <<< (6 : UInt64)) + (seed >>> (2 : UInt64)))

/-- hashes in the order given -/
def chainAll (seed : UInt64) (hashes : List UInt64) : UInt64 := hashes.foldl chain seed

/-- hashes in ascending order, whatever the order given -/
def chainSorted (seed : UInt64) (hashes : List UInt64) : UInt64 :=
  chainAll seed (hashes.mergeSort fun a b => decide (a ≤ b))

@[simp] theorem chainAll_nil (seed : UInt64) : chainAll seed [] = seed := rfl

@[simp] theorem chainAll_cons (seed h : UInt64) (hs : List UInt64) :
    chainAll seed (h :: hs) = chainAll (chain seed h) hs := rfl

theorem chainAll_append (seed : UInt64) (hs ks : List UInt64) :
    chainAll seed (hs ++ ks) = chainAll (chainAll seed hs) ks := by
  simp [chainAll]

/-- hashes of the same contents fold alike, however they are listed -/
theorem chainSorted_perm {hs ks : List UInt64} (h : hs.Perm ks) (seed : UInt64) :
    chainSorted seed hs = chainSorted seed ks := by
  have sorted (l : List UInt64) : (l.mergeSort fun a b => decide (a ≤ b)).Pairwise (· ≤ ·) := by
    have trans (a b c : UInt64) (hab : decide (a ≤ b) = true) (hbc : decide (b ≤ c) = true) :
        decide (a ≤ c) = true := by
      simpa using UInt64.le_trans (of_decide_eq_true hab) (of_decide_eq_true hbc)
    have total (a b : UInt64) : (decide (a ≤ b) || decide (b ≤ a)) = true := by
      simpa using UInt64.le_total a b
    simpa using List.pairwise_mergeSort trans total l
  have perm : (hs.mergeSort fun a b => decide (a ≤ b)).Perm
      (ks.mergeSort fun a b => decide (a ≤ b)) :=
    (List.mergeSort_perm hs _).trans (h.trans (List.mergeSort_perm ks _).symm)
  have := perm.eq_of_pairwise (fun a b _ _ hab hba => UInt64.le_antisymm hab hba)
    (sorted hs) (sorted ks)
  simp only [chainSorted, this]

class Checksum (α : Type) where
  checksum : α → UInt64

export Checksum (checksum)

end EventBuckets
