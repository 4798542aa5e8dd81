import EventBuckets.Json.Number

/-!
# Documents of settings

A document of settings is YAML in flow style, with every text in double quotes.  That restricts what
a text may hold as it is, and more so a name, which has to stand on one line.  Containers may be
opened 128 deep.

* `isLegibleChar`    the characters that may be written as they are;
* `isLegibleName`    a name has no line break, and 1024 characters at most as it is written;
* `isLegibleText`    no line within a text looks like the end of a document;
* `Json.isLegible`   every name and text of a document is legible, and the document is not too deep;
* `Json.settled`     a document with its floats rounded; one too large for a float is a text.
-/

namespace EventBuckets

/-- whether a character may be written as it is: no control characters but tabs and line breaks, and
nothing that is no character -/
def isLegibleChar (c : Char) : Bool :=
  let n := c.toNat
  n = 9 || n = 10 || n = 13 || (0x20 ≤ n && n ≤ 0x7e) || n = 0x85 || (0xa0 ≤ n && n ≤ 0xd7ff)
    || (0xe000 ≤ n && n ≤ 0xfffd) || 0x10000 ≤ n

/-- the line breaks that are written as they are -/
def isLineBreak (c : Char) : Bool := c.toNat = 0x85 || c.toNat = 0x2028 || c.toNat = 0x2029

/-- whether a line that starts here looks like the start or the end of a document -/
def startsMarker : List Char → Bool
  | a :: b :: c :: d :: _ =>
    ([a, b, c] = ['-', '-', '-'] || [a, b, c] = ['.', '.', '.']) && (d = ' ' || isLineBreak d)
  | _ => false

/-- whether a line after the first one looks like the start or the end of a document -/
def hasMarker : List Char → Bool
  | [] => false
  | c :: cs => (isLineBreak c && startsMarker cs) || hasMarker cs

def isLegibleText (text : String) : Bool :=
  (quotedChars text).all isLegibleChar && !hasMarker text.toList

/-- the length of the longest name, with its quotes and escapes -/
def nameRoom : Nat := 1024

def isLegibleName (name : String) : Bool :=
  let written := quotedChars name
  written.all isLegibleChar && !name.toList.any isLineBreak && written.length ≤ nameRoom

/-- how many containers a document may open inside of each other -/
def settingsRoom : Nat := 128

namespace Json

mutual

/-- whether every name and text is legible, where `room` more containers may be opened; half of a
surrogate pair cannot be written -/
def legibleWithin (room : Nat) : Json → Bool
  | string text => isLegibleText text
  | halfPair => false
  | array items => 0 < room && itemsLegible (room - 1) items
  | object members => 0 < room && membersLegible (room - 1) members
  | _ => true

def itemsLegible (room : Nat) : List Json → Bool
  | [] => true
  | v :: vs => v.legibleWithin room && itemsLegible room vs

def membersLegible (room : Nat) : List (Option String × Json) → Bool
  | [] => true
  | (name, v) :: ms => name.any isLegibleName && v.legibleWithin room && membersLegible room ms

end

/-- whether a document of settings can be read -/
def isLegible : Json → Bool := legibleWithin settingsRoom

/-- a number as a document gives it: whole numbers of 64 bits are exact, others are floats -/
def settledNumber (literal : String) : Json :=
  let j := number literal
  if j.word?.isSome || j.time?.isSome then j
  else
    match j.float? with
    | some x => ofFloat x
    | none => string literal

mutual

/-- a document with its numbers settled -/
def settled : Json → Json
  | number literal => settledNumber literal
  | array items => array (settledItems items)
  | object members => object (settledMembers members)
  | j => j

def settledItems : List Json → List Json
  | [] => []
  | v :: vs => v.settled :: settledItems vs

def settledMembers : List (Option String × Json) → List (Option String × Json)
  | [] => []
  | (name, v) :: ms => (name, v.settled) :: settledMembers ms

end

end Json

end EventBuckets
