/-!
# JSON values

A value keeps its numbers as written, its members in order, and a name or string that holds half
of a surrogate pair apart from the texts, since no text holds such a character.

* `Json`        the values;
* `Json.chars`  the compact text, by structural recursion;
* `escapeChar`  how a character stands in a string: `"` and `\` after a backslash, control
                characters by letter or as `\u00xx`, all others as they are.
-/

namespace EventBuckets

inductive Json where
  | null
  | bool (value : Bool)
  | number (literal : String)
  | string (text : String)
  | halfPair
  | array (items : List Json)
  | object (members : List (Option String × Json))

def hexDigit (n : Nat) : Char := if n < 10 then Char.ofNat (48 + n) else Char.ofNat (87 + n)

def escapeChar (c : Char) : List Char :=
  if c = '"' then ['\\', '"']
  else if c = '\\' then ['\\', '\\']
  else if c.toNat = 8 then ['\\', 'b']
  else if c.toNat = 9 then ['\\', 't']
  else if c.toNat = 10 then ['\\', 'n']
  else if c.toNat = 12 then ['\\', 'f']
  else if c.toNat = 13 then ['\\', 'r']
  else if c.toNat < 32 then ['\\', 'u', '0', '0', hexDigit (c.toNat / 16), hexDigit (c.toNat % 16)]
  else [c]

def quotedChars (text : String) : List Char := '"' :: (text.toList.flatMap escapeChar ++ ['"'])

/-- a name with its quotes; a replacement stands for one that holds half of a surrogate pair -/
def nameChars (name : Option String) : List Char := quotedChars (name.getD "\uFFFD")

namespace Json

mutual

/-- the compact text of a value -/
def chars : Json → List Char
  | null => ['n', 'u', 'l', 'l']
  | bool true => ['t', 'r', 'u', 'e']
  | bool false => ['f', 'a', 'l', 's', 'e']
  | number literal => literal.toList
  | string text => quotedChars text
  | halfPair => nameChars none
  | array [] => ['[', ']']
  | array (v :: vs) => '[' :: (v.chars ++ itemChars vs)
  | object [] => ['{', '}']
  | object ((name, v) :: ms) => '{' :: (nameChars name ++ ':' :: (v.chars ++ memberChars ms))

/-- what follows an item of an array -/
def itemChars : List Json → List Char
  | [] => [']']
  | v :: vs => ',' :: (v.chars ++ itemChars vs)

/-- what follows a member of an object -/
def memberChars : List (Option String × Json) → List Char
  | [] => ['}']
  | (name, v) :: ms => ',' :: (nameChars name ++ ':' :: (v.chars ++ memberChars ms))

end

def render (j : Json) : String := String.ofList j.chars

def record (members : List (String × Json)) : Json :=
  object (members.map fun (name, value) => (some name, value))

def ofNat (n : Nat) : Json := number (toString n)

def ofInt (n : Int) : Json := number (toString n)

def ofOption {α : Type} (f : α → Json) : Option α → Json
  | none => null
  | some a => f a

def ofList {α : Type} (f : α → Json) (as : List α) : Json := array (as.map f)

end Json

end EventBuckets
