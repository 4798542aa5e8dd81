import EventBuckets.Decimal.Shortest

/-!
# Texts of floats

Two layouts of the shortest decimal.

* `floatText`     for state and messages: always positional and without a superfluous point, so `1`,
                  `0.1`, `-0` and a one with 300 zeros; `inf`, `-inf` and `NaN`.  Of two equally
                  near decimals the one farther from zero is written;
* `floatLiteral`  for documents: positional with at least one decimal place where the exponent of
                  the first digit is from -5 to 15 (`1.0`, `0.00001`), scientific with a signed
                  exponent elsewhere (`1.5e+16`, `1e-6`); what is not finite is written `null`.  Of
                  two equally near decimals the even one is written.
-/

namespace EventBuckets

namespace Decimal

/-- the digits of a whole number, the first one first -/
def digitChars (n : Nat) : List Char := Nat.toDigits 10 n

def positional (d : Decimal) : List Char :=
  let ds := digitChars d.digits
  if 0 ≤ d.exponent then ds ++ List.replicate d.exponent.toNat '0'
  else
    let whole := (ds.length : Int) + d.exponent
    if 0 < whole then ds.take whole.toNat ++ '.' :: ds.drop whole.toNat
    else '0' :: '.' :: (List.replicate (-whole).toNat '0' ++ ds)

/-- a decimal with one digit before the point and a signed exponent -/
def scientific (d : Decimal) : List Char :=
  let ds := digitChars d.digits
  let e := (ds.length : Int) - 1 + d.exponent
  let fraction := if ds.length ≤ 1 then [] else '.' :: ds.drop 1
  ds.take 1 ++ fraction ++ 'e' :: (if e < 0 then '-' else '+') :: digitChars e.natAbs

/-- positional with a decimal place, or scientific, by the exponent of the first digit -/
def literal (d : Decimal) : List Char :=
  let e := ((digitChars d.digits).length : Int) - 1 + d.exponent
  if -5 ≤ e ∧ e < 16 then
    d.positional ++ if 0 ≤ d.exponent then ['.', '0'] else []
  else d.scientific

end Decimal

def signed (x : Binary64) (text : List Char) : List Char :=
  if x.isNegative then '-' :: text else text

def floatChars (x : Binary64) : List Char :=
  if x.isNaN then ['N', 'a', 'N']
  else if x.isInfinite then signed x ['i', 'n', 'f']
  else if x.isZero then signed x ['0']
  else signed x (Decimal.shortest .up x.magnitude).positional

/-- the text of a float in state and messages -/
def floatText (x : Binary64) : String := String.ofList (floatChars x)

/-- the text of a float in documents -/
def floatLiteral (x : Binary64) : String :=
  if !x.isFinite then "null"
  else if x.isZero then String.ofList (signed x ['0', '.', '0'])
  else String.ofList (signed x (Decimal.shortest .even x.magnitude).literal)

end EventBuckets
