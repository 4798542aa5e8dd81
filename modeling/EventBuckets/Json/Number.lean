import EventBuckets.Decimal.Layout
import EventBuckets.Json
import EventBuckets.Text.Number

/-!
# Numbers of a JSON document

Whole numbers are exact and have neither point nor exponent; `-0` is no whole number.

A float is read from a significand below `2 ^ 64` and a power of ten: digits that no longer fit the
significand count as zeros before the point and are dropped behind it.  The significand becomes a
float and is multiplied or divided by the float of the power, two roundings in all, so the last
digit of a long literal may be off by one unit.

* `Json.word?`, `Json.time?`  whole numbers of 64 bits without and with sign;
* `Json.float?`               a float, `none` if the literal is too large for one.
-/

namespace EventBuckets

namespace Json

def word? : Json → Option Nat
  | number literal =>
    (readDigits literal.toList).bind fun n => if n < 0x10000000000000000 then some n else none
  | _ => none

def time? : Json → Option Int
  | number literal =>
    match literal.toList with
    | '-' :: cs =>
      (readDigits cs).bind fun n => if 0 < n ∧ n ≤ 0x8000000000000000 then some (-n) else none
    | cs => (readDigits cs).bind fun n => if n < 0x8000000000000000 then some n else none
  | _ => none

/-- a significand below `2 ^ 64` and an exponent of ten -/
structure Scaled where
  significand : Nat
  exponent : Int

/-- whether another digit fits the significand -/
def Scaled.fits (s : Scaled) (digit : Nat) : Bool :=
  s.significand * 10 + digit < 0x10000000000000000

def digitValue (c : Char) : Nat := c.toNat - '0'.toNat

/-- the digits before the point: once one does not fit, it and all that follow only scale -/
def Scaled.whole (s : Scaled) : List Char → Scaled
  | [] => s
  | c :: cs =>
    if s.fits (digitValue c) then
      Scaled.whole ⟨s.significand * 10 + digitValue c, s.exponent⟩ cs
    else ⟨s.significand, s.exponent + (cs.length + 1)⟩

/-- the digits behind the point: once one does not fit, it and all that follow are dropped -/
def Scaled.fraction (s : Scaled) : List Char → Scaled
  | [] => s
  | c :: cs =>
    if s.fits (digitValue c) then
      Scaled.fraction ⟨s.significand * 10 + digitValue c, s.exponent - 1⟩ cs
    else s

def greatestPower : Int := 308

def powerOfTen (e : Nat) : Binary64 := Decimal.round false ⟨1, e⟩

/-- the float of a significand and an exponent; the first argument bounds the divisions, of which
four reach zero -/
def Scaled.toFloat : Nat → Binary64 → Int → Option Binary64
  | 0, _, _ => some 0
  | n + 1, f, e =>
    if e.natAbs ≤ greatestPower.toNat then
      if 0 ≤ e then
        let r := f * powerOfTen e.natAbs
        if r.isInfinite then none else some r
      else some (f / powerOfTen e.natAbs)
    else if f.isZero then some f
    else if 0 ≤ e then none
    else Scaled.toFloat n (f / powerOfTen greatestPower.toNat) (e + greatestPower)

def exponentLimit : Nat := 0x80000000

def floatMagnitude (cs : List Char) : Option Binary64 :=
  let whole := cs.takeWhile Char.isDigit
  let rest := cs.dropWhile Char.isDigit
  let (fraction, rest) := match rest with
    | '.' :: r => (r.takeWhile Char.isDigit, r.dropWhile Char.isDigit)
    | r => ([], r)
  let s := (Scaled.whole ⟨0, 0⟩ whole).fraction fraction
  let start := Binary64.ofNat s.significand
  match rest with
  | [] => Scaled.toFloat 4 start s.exponent
  | _ :: r =>
    let e := (readExponent r).getD 0
    if exponentLimit ≤ e.natAbs then
      if s.significand ≠ 0 ∧ 0 ≤ e then none else some 0
    else Scaled.toFloat 4 start (s.exponent + e)

/-- a float, `none` if the literal is too large for one -/
def float? : Json → Option Binary64
  | number literal =>
    match literal.toList with
    | '-' :: cs => (floatMagnitude cs).map fun f => .ofParts true f.magnitude
    | cs => floatMagnitude cs
  | _ => none

def ofFloat (x : Binary64) : Json := number (floatLiteral x)

end Json

end EventBuckets
