/-!
# Floats of 64 bits

A float is its bits: the sign on top, below it the place of the float when the floats from zero up
are counted.  What is no number keeps its sign, so it has more than one form.

* `Binary64`                      the bits; `magnitude`, `isNegative` their two parts;
* `Binary64.key`                  a whole number that orders floats by value;
* `+`, `-`, `*`, `/`              arithmetic rounded to nearest.  An operand that is no number goes
                                  through as it is, and an undefined result has its sign set;
* `Binary64.min`, `Binary64.max`  the lesser and the greater one; what is no number gives way;
* `Binary64.ofNat`                the float nearest to a whole number below `2 ^ 64`.
-/

namespace EventBuckets

structure Binary64 where
  bits : UInt64
deriving DecidableEq, Repr

namespace Binary64

/-- the magnitude of infinity, which is above those of all numbers -/
def infinite : Nat := 0x7ff0000000000000

/-- the bits without the sign -/
def magnitude (x : Binary64) : Nat := x.bits.toNat % 0x8000000000000000

def isNegative (x : Binary64) : Bool := 0x8000000000000000 ≤ x.bits.toNat

/-- the float with a sign and a magnitude -/
def ofParts (negative : Bool) (magnitude : Nat) : Binary64 :=
  ⟨UInt64.ofNat (magnitude + if negative then 0x8000000000000000 else 0)⟩

instance : OfNat Binary64 0 := ⟨⟨0⟩⟩

instance : OfNat Binary64 1 := ⟨⟨0x3ff0000000000000⟩⟩

def isZero (x : Binary64) : Bool := x.magnitude = 0

def isFinite (x : Binary64) : Bool := x.magnitude < infinite

def isInfinite (x : Binary64) : Bool := x.magnitude = infinite

def isNaN (x : Binary64) : Bool := infinite < x.magnitude

/-! ## order -/

/-- a whole number that orders floats by value, the same one for both zeros -/
def key (x : Binary64) : Int := if x.isNegative then -x.magnitude else x.magnitude

/-- the lesser one; what is no number gives way -/
protected def min (a b : Binary64) : Binary64 :=
  if a.isNaN then b else if b.isNaN then a else if b.key < a.key then b else a

/-- the greater one; what is no number gives way -/
protected def max (a b : Binary64) : Binary64 :=
  if a.isNaN then b else if b.isNaN then a else if a.key < b.key then b else a

/-! ## arithmetic -/

/-- the result of an operation that is not defined, such as infinity less infinity -/
def undefinedResult : Binary64 := ⟨0xfff8000000000000⟩

def ofResult (r : Float) : Binary64 := if r.isNaN then undefinedResult else ⟨r.toBits⟩

/-- an operation on floats; an operand that is no number goes through, the first one first -/
def lift (f : Float → Float → Float) (a b : Binary64) : Binary64 :=
  if a.isNaN then a
  else if b.isNaN then b
  else ofResult (f (Float.ofBits a.bits) (Float.ofBits b.bits))

instance : Add Binary64 := ⟨lift (· + ·)⟩

instance : Sub Binary64 := ⟨lift (· - ·)⟩

instance : Mul Binary64 := ⟨lift (· * ·)⟩

instance : Div Binary64 := ⟨lift (· / ·)⟩

/-- the float nearest to a whole number below `2 ^ 64` -/
def ofNat (n : Nat) : Binary64 := ⟨(UInt64.ofNat n).toFloat.toBits⟩

end Binary64

end EventBuckets
