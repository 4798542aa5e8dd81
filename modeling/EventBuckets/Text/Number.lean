import EventBuckets.Decimal.Nearest

/-!
# Numbers read from text

* `readNat`    digits with an optional plus sign, below a limit;
* `readWord`   such a number below `2 ^ 64`;
* `readTime`   a signed number of 64 bits;
* `readFloat`  a decimal with optional sign, point and exponent, or `inf`, `infinity`, `nan` in any
               case; the nearest float, infinity if the decimal is too large.

No blanks, no separators; leading zeros are allowed.
-/

namespace EventBuckets

def digitsValue (cs : List Char) : Nat := cs.foldl (fun n c => 10 * n + (c.toNat - '0'.toNat)) 0

/-- a nonempty run of digits and nothing else -/
def readDigits (cs : List Char) : Option Nat :=
  if cs.isEmpty || !cs.all Char.isDigit then none else some (digitsValue cs)

/-- digits with an optional plus sign, below `limit` -/
def readNat (limit : Nat) (text : String) : Option Nat :=
  let digits := match text.toList with
    | '+' :: cs => cs
    | cs => cs
  (readDigits digits).bind fun n => if n < limit then some n else none

/-- a number below `2 ^ 64` -/
def readWord : String → Option Nat := readNat 0x10000000000000000

/-- a signed number of 64 bits -/
def readTime (text : String) : Option Int :=
  match text.toList with
  | '-' :: cs => (readDigits cs).bind fun n => if n ≤ 0x8000000000000000 then some (-n) else none
  | _ => (readNat 0x8000000000000000 text).map Int.ofNat

/-- an exponent: an optional sign and digits -/
def readExponent : List Char → Option Int
  | '+' :: cs => (readDigits cs).map Int.ofNat
  | '-' :: cs => (readDigits cs).map fun n => -Int.ofNat n
  | cs => (readDigits cs).map Int.ofNat

/-- digits with an optional point, at least one digit, and an optional exponent -/
def readDecimal (cs : List Char) : Option Decimal :=
  let whole := cs.takeWhile Char.isDigit
  let rest := cs.dropWhile Char.isDigit
  let (fraction, rest) := match rest with
    | '.' :: r => (r.takeWhile Char.isDigit, r.dropWhile Char.isDigit)
    | r => ([], r)
  if whole.isEmpty && fraction.isEmpty then none
  else
    let digits := digitsValue (whole ++ fraction)
    match rest with
    | [] => some ⟨digits, -fraction.length⟩
    | c :: r =>
      if c = 'e' ∨ c = 'E' then (readExponent r).map fun e => ⟨digits, e - fraction.length⟩
      else none

/-- the names of what is not finite -/
def readUnbounded (cs : List Char) : Option Nat :=
  let name := cs.map Char.toLower
  if name = "inf".toList ∨ name = "infinity".toList then some Binary64.infinite
  else if name = "nan".toList then some (Binary64.infinite + 0x8000000000000)
  else none

def readMagnitude (cs : List Char) : Option Nat :=
  (readUnbounded cs).orElse fun _ => (readDecimal cs).map Decimal.bits

def readFloatChars (cs : List Char) : Option Binary64 :=
  let (negative, cs) := match cs with
    | '-' :: r => (true, r)
    | '+' :: r => (false, r)
    | r => (false, r)
  (readMagnitude cs).map (Binary64.ofParts negative)

/-- the float nearest to the number that a text writes -/
def readFloat (text : String) : Option Binary64 := readFloatChars text.toList

end EventBuckets
