import EventBuckets.Json

/-!
# Reading JSON

A strict reader: no comments, no trailing commas, space, tab, line feed and carriage return are the
only blanks, and nothing but blanks follows the value.

* `Piece`       a character or a 16 bit unit named by an escape;
* `joinPieces`  the text of a string, `none` if half of a surrogate pair stands alone;
* `scanNumber`  the longest number at the front;
* `readValue`   a value and what follows it.  The first argument bounds the steps; each step takes a
                character, so the length of the text is enough;
* `Json.parse`  a whole text.
-/

namespace EventBuckets

/-- what a string is made of: characters, and units of 16 bits named by an escape -/
inductive Piece where
  | char (c : Char)
  | unit (n : Nat)

/-- the characters of a string; two units of a surrogate pair make one character -/
def joinPieces : List Piece → Option (List Char)
  | [] => some []
  | .char c :: ps => (joinPieces ps).map (c :: ·)
  | .unit n :: .unit m :: ps =>
    if 0xd800 ≤ n ∧ n < 0xdc00 then
      if 0xdc00 ≤ m ∧ m < 0xe000 then
        (joinPieces ps).map (Char.ofNat (0x10000 + (n - 0xd800) * 0x400 + (m - 0xdc00)) :: ·)
      else none
    else if 0xdc00 ≤ n ∧ n < 0xe000 then none
    else (joinPieces (.unit m :: ps)).map (Char.ofNat n :: ·)
  | .unit n :: ps =>
    if 0xd800 ≤ n ∧ n < 0xe000 then none else (joinPieces ps).map (Char.ofNat n :: ·)

def hexValue (c : Char) : Option Nat :=
  if '0' ≤ c ∧ c ≤ '9' then some (c.toNat - 48)
  else if 'a' ≤ c ∧ c ≤ 'f' then some (c.toNat - 87)
  else if 'A' ≤ c ∧ c ≤ 'F' then some (c.toNat - 55)
  else none

def hexUnit (a b c d : Char) : Option Nat := do
  return (((← hexValue a) * 16 + (← hexValue b)) * 16 + (← hexValue c)) * 16 + (← hexValue d)

/-- the character after a backslash, all but `u` -/
def simpleEscape (c : Char) : Option Char :=
  if c = '"' ∨ c = '\\' ∨ c = '/' then some c
  else if c = 'b' then some (Char.ofNat 8)
  else if c = 'f' then some (Char.ofNat 12)
  else if c = 'n' then some '\n'
  else if c = 'r' then some '\r'
  else if c = 't' then some '\t'
  else none

/-- the pieces of a string up to its closing quote -/
def readPieces : List Char → Option (List Piece × List Char)
  | [] => none
  | '"' :: cs => some ([], cs)
  | '\\' :: 'u' :: a :: b :: c :: d :: cs => do
    let n ← hexUnit a b c d
    let (ps, rest) ← readPieces cs
    return (.unit n :: ps, rest)
  | '\\' :: c :: cs => do
    let e ← simpleEscape c
    let (ps, rest) ← readPieces cs
    return (.char e :: ps, rest)
  | c :: cs =>
    if c.toNat < 32 ∨ c = '\\' then none
    else do
      let (ps, rest) ← readPieces cs
      return (.char c :: ps, rest)

/-- a string after its opening quote; the text is `none` if half of a surrogate pair stands alone -/
def readString (cs : List Char) : Option (Option String × List Char) :=
  (readPieces cs).map fun (ps, rest) => ((joinPieces ps).map String.ofList, rest)

def isSpace (c : Char) : Bool := c = ' ' || c = '\n' || c = '\t' || c = '\r'

def skipSpace (cs : List Char) : List Char := cs.dropWhile isSpace

def scanDigits (cs : List Char) : Option (List Char × List Char) :=
  let digits := cs.takeWhile Char.isDigit
  if digits.isEmpty then none else some (digits, cs.dropWhile Char.isDigit)

/-- digits without a superfluous zero in front -/
def scanWhole (cs : List Char) : Option (List Char × List Char) := do
  let (digits, rest) ← scanDigits cs
  if digits.length ≠ 1 ∧ digits.head? = some '0' then none else some (digits, rest)

def scanFraction : List Char → Option (List Char × List Char)
  | '.' :: cs => (scanDigits cs).map fun (digits, rest) => ('.' :: digits, rest)
  | cs => some ([], cs)

def scanExponent : List Char → Option (List Char × List Char)
  | [] => some ([], [])
  | e :: cs =>
    if e = 'e' ∨ e = 'E' then
      let (sign, cs) := match cs with
        | '+' :: r => (['+'], r)
        | '-' :: r => (['-'], r)
        | r => ([], r)
      (scanDigits cs).map fun (digits, rest) => (e :: (sign ++ digits), rest)
    else some ([], e :: cs)

/-- the longest number at the front, as written -/
def scanNumber (cs : List Char) : Option (List Char × List Char) := do
  let (sign, cs) := match cs with
    | '-' :: r => (['-'], r)
    | r => ([], r)
  let (whole, cs) ← scanWhole cs
  let (fraction, cs) ← scanFraction cs
  let (exponent, cs) ← scanExponent cs
  return (sign ++ whole ++ fraction ++ exponent, cs)

mutual

/-- a value, after any blanks -/
def readValue : Nat → List Char → Option (Json × List Char)
  | 0, _ => none
  | n + 1, cs =>
    match skipSpace cs with
    | '{' :: r =>
      match skipSpace r with
      | '}' :: r => some (.object [], r)
      | r => (readMembers n r).map fun (ms, rest) => (.object ms, rest)
    | '[' :: r =>
      match skipSpace r with
      | ']' :: r => some (.array [], r)
      | r => (readItems n r).map fun (vs, rest) => (.array vs, rest)
    | '"' :: r => (readString r).map fun (text, rest) => (text.elim .halfPair .string, rest)
    | 'n' :: 'u' :: 'l' :: 'l' :: r => some (.null, r)
    | 't' :: 'r' :: 'u' :: 'e' :: r => some (.bool true, r)
    | 'f' :: 'a' :: 'l' :: 's' :: 'e' :: r => some (.bool false, r)
    | r => (scanNumber r).map fun (literal, rest) => (.number (String.ofList literal), rest)

/-- the items of an array that has one -/
def readItems : Nat → List Char → Option (List Json × List Char)
  | 0, _ => none
  | n + 1, cs => do
    let (v, r) ← readValue n cs
    match skipSpace r with
    | ',' :: r => (readItems n r).map fun (vs, rest) => (v :: vs, rest)
    | ']' :: r => some ([v], r)
    | _ => none

/-- the members of an object that has one -/
def readMembers : Nat → List Char → Option (List (Option String × Json) × List Char)
  | 0, _ => none
  | n + 1, cs =>
    match skipSpace cs with
    | '"' :: r => do
      let (name, r) ← readString r
      match skipSpace r with
      | ':' :: r =>
        let (v, r) ← readValue n r
        match skipSpace r with
        | ',' :: r => (readMembers n r).map fun (ms, rest) => ((name, v) :: ms, rest)
        | '}' :: r => some ([(name, v)], r)
        | _ => none
      | _ => none
    | _ => none

end

/-- a value with nothing but blanks around it -/
def Json.parseChars (cs : List Char) : Option Json := do
  let (v, rest) ← readValue (cs.length + 1) cs
  if (skipSpace rest).isEmpty then some v else none

def Json.parse (text : String) : Option Json := Json.parseChars text.toList

end EventBuckets
