import EventBuckets.Binary64

/-!
# Decimals and the floats nearest to them

A `Decimal` is a whole number times a power of ten; a finite positive float is a whole number
times a power of two.  All arithmetic here is exact, on natural numbers.

* `Binary`         `mantissa * 2 ^ exponent`; `Binary.ofBits` reads it off the bits of a float;
* `divNearest`     a quotient rounded to the nearest whole number, where a `Tie` goes as it says;
* `nearestBits`    the bits of the float nearest to a fraction, a tie going to the even mantissa;
* `Decimal.bits`   the bits of the float nearest to a decimal;
* `Decimal.round`  that float, with a sign.

The bits of a float count the floats from zero up, so rounding up past the largest mantissa
carries into the exponent by itself (`nearestBits`), and the first count past the largest finite
float is infinity.
-/

namespace EventBuckets

/-- `digits * 10 ^ exponent` -/
structure Decimal where
  digits : Nat
  exponent : Int
deriving DecidableEq, Repr

/-- `mantissa * 2 ^ exponent` -/
structure Binary where
  mantissa : Nat
  exponent : Int
deriving DecidableEq, Repr

/-- the number of mantissas at one exponent -/
def mantissas : Nat := 0x10000000000000

def leastExponent : Int := -1074

def Binary.ofBits (bits : Nat) : Binary :=
  if bits / mantissas = 0 then ⟨bits, leastExponent⟩
  else ⟨bits % mantissas + mantissas, (bits / mantissas : Nat) - 1 + leastExponent⟩

/-- a fraction scaled by `2 ^ -exponent`, as numerator and denominator -/
def scaleDown (num den : Nat) (exponent : Int) : Nat × Nat :=
  (num * Nat.pow 2 (-exponent).toNat, den * Nat.pow 2 exponent.toNat)

inductive Tie where
  | even
  | up
deriving DecidableEq, Repr

/-- whether a value halfway after `q` goes to `q + 1` -/
def Tie.leaves : Tie → Nat → Bool
  | even, q => q % 2 = 1
  | up, _ => true

def divNearest (tie : Tie) (num den : Nat) : Nat :=
  let q := num / den
  let r := num % den
  if den < 2 * r ∨ (den = 2 * r ∧ tie.leaves q) then q + 1 else q

theorem divNearest_mul (tie : Tie) (q : Nat) {den : Nat} (h : 0 < den) :
    divNearest tie (q * den) den = q := by
  unfold divNearest
  simp only [Nat.mul_div_cancel q h, Nat.mul_mod_left, Nat.mul_zero]
  rw [if_neg (by omega)]

theorem divNearest_half (tie : Tie) (q : Nat) :
    divNearest tie (2 * q + 1) 2 = if tie.leaves q then q + 1 else q := by
  have d : (2 * q + 1) / 2 = q := by omega
  have m : (2 * q + 1) % 2 = 1 := by omega
  simp [divNearest, d, m]

/-- the exponent at which a positive fraction has a 53 bit mantissa, or the least one -/
def mantissaExponent (num den : Nat) : Int :=
  let guess : Int := num.log2 - den.log2 - 52
  let (n, d) := scaleDown num den guess
  max (if n < mantissas * d then guess - 1 else guess) leastExponent

def nearestBits (num den : Nat) : Nat :=
  let e := mantissaExponent num den
  let (n, d) := scaleDown num den e
  min ((e - leastExponent).toNat * mantissas + divNearest .even n d) Binary64.infinite

namespace Decimal

def ratio (d : Decimal) : Nat × Nat :=
  (d.digits * Nat.pow 10 d.exponent.toNat, Nat.pow 10 (-d.exponent).toNat)

def length (n : Nat) : Nat := (Nat.toDigits 10 n).length

/-- the bits of the nearest float; far outside of the range of floats no power is computed -/
def bits (d : Decimal) : Nat :=
  let top : Int := length d.digits + d.exponent
  if d.digits = 0 ∨ top < -330 then 0
  else if 310 < top then Binary64.infinite
  else nearestBits d.ratio.1 d.ratio.2

def round (negative : Bool) (d : Decimal) : Binary64 := .ofParts negative d.bits

end Decimal

end EventBuckets
