import EventBuckets.Decimal.Nearest

/-!
# Shortest decimals

The decimal written for a float is the one with the fewest digits that reads back as that float,
and among those the nearest.  Where two are equally near, the text that is written decides.

* `Decimal.neighbours`  the neighbours of a value on the grid of an exponent, the nearer one first;
* `Decimal.shortest`    the first neighbour, over `n = 1, 2, .., 17`, that reads back.  Should none
                        do, the exact value is taken: a float has a finite decimal expansion.
-/

namespace EventBuckets

def Binary.ratio (b : Binary) : Nat × Nat :=
  (b.mantissa * Nat.pow 2 b.exponent.toNat, Nat.pow 2 (-b.exponent).toNat)

namespace Decimal

/-- the number of decimal places that leave a positive float at least one digit before the point -/
def places : Nat := 342

def leadingExponent (num den : Nat) : Int :=
  (length (num * Nat.pow 10 places / den) : Int) - 1 - places

/-- the two neighbours of `num / den` among the multiples of `10 ^ exponent`, the nearer one
first; of two equally near the one that the tie goes to comes first -/
def neighbours (tie : Tie) (num den : Nat) (exponent : Int) : List Decimal :=
  let n := num * Nat.pow 10 (-exponent).toNat
  let d := den * Nat.pow 10 exponent.toNat
  let low := n / d
  let near := divNearest tie n d
  [⟨near, exponent⟩, ⟨if near = low then low + 1 else low, exponent⟩]

def exact (b : Binary) : Decimal :=
  if 0 ≤ b.exponent then ⟨b.mantissa * Nat.pow 2 b.exponent.toNat, 0⟩
  else ⟨b.mantissa * Nat.pow 5 (-b.exponent).toNat, b.exponent⟩

def trim (d : Decimal) : Decimal := go (length d.digits) d
where
  go : Nat → Decimal → Decimal
    | 0, d => d
    | n + 1, d => if d.digits % 10 = 0 then go n ⟨d.digits / 10, d.exponent + 1⟩ else d

/-- the decimal with the fewest digits that reads back as the float with these bits -/
def shortest (tie : Tie) (bits : Nat) : Decimal :=
  let b := Binary.ofBits bits
  let (num, den) := b.ratio
  let lead := leadingExponent num den
  let hit (n : Nat) : Option Decimal :=
    (neighbours tie num den (lead - n)).find? fun d => d.bits = bits
  trim (((List.range 17).findSome? hit).getD (exact b))

end Decimal

end EventBuckets
