import EventBuckets.Json
import EventBuckets.Text.Blank
import EventBuckets.Text.Number

/-!
# Settings from variables

A variable such as `SIEVE_GATHERER__BUCKET_LENGTH` gives a setting: after the prefix, `__` separates
the names of nested settings, and case does not count.

The text of a variable is a value on its own: `true` and `false`, whole numbers, numbers with a
point, `[..]`, `{name = value, ..}`, a character in single and a string in double quotes.  Any
other text is a string, as is one that breaks off or goes on after a value.

* `Variable.path?`    the names that a variable sets;
* `Variable.value?`   the value of a text;
* `Variable.unquote`  the text of a string, whose first escape counts the characters before it as
                      bytes;
* `Json.overlay`      a document with the members of another one put over its own.
-/

namespace EventBuckets

namespace Json

def setMember (name : Option String) (value : Json) :
    List (Option String × Json) → List (Option String × Json)
  | [] => [(name, value)]
  | m :: ms => if m.1 = name then (name, value) :: ms else m :: setMember name value ms

mutual

/-- the second document where it says something, and the first one elsewhere -/
def overlay (base : Json) : Json → Json
  | object members =>
    match base with
    | object own => object (overlayMembers own members)
    | _ => object (overlayMembers [] members)
  | j => j

def overlayMembers (own : List (Option String × Json)) :
    List (Option String × Json) → List (Option String × Json)
  | [] => own
  | (name, value) :: ms =>
    overlayMembers (setMember name (overlay ((own.lookup name).getD null) value) own) ms

end

end Json

namespace Variable

/-! ## names -/

def leader : List Char := "sieve_".toList

/-- the parts of a name between dots, where `__` is a dot -/
def parts : List Char → List (List Char)
  | [] => [[]]
  | '_' :: '_' :: cs => [] :: parts cs
  | '.' :: cs => [] :: parts cs
  | c :: cs =>
    match parts cs with
    | part :: rest => (c :: part) :: rest
    | [] => [[c]]

/-- the names that a variable sets, the outermost first; no name is empty -/
def path? (name : String) : Option (List String) :=
  let cs := (trimBlank name.toList).map Char.toLower
  if leader.isPrefixOf cs then
    let names := parts (trimBlank (cs.drop leader.length))
    if names.any List.isEmpty then none else some (names.map String.ofList)
  else none

/-! ## values -/

/-- why a text is no value of its own -/
inductive Fault where
  /-- it breaks off, goes on after a value, or holds an unknown escape -/
  | malformed
  /-- a string in it is cut off inside of a character -/
  | cut
deriving DecidableEq, Repr

def isSpace (c : Char) : Bool := c = ' ' || c = '\t' || c = '\n' || c = '\r' || c.toNat = 12

def isSeparator (c : Char) : Bool :=
  c = ',' || c = '[' || c = ']' || c.toNat = 0x7b || c.toNat = 0x7d

def isNameChar (c : Char) : Bool := c.isAlphanum || c = '_' || c = '-'

def plain (cs : List Char) : Json :=
  let text := String.ofList (trimBlank cs)
  if '.' ∈ cs ∧ (readFloat text).isSome then .number text
  else
    match readWord text with
    | some n => .ofNat n
    | none =>
      match readTime text with
      | some n => .ofInt n
      | none => .string text

def hexValue (cs : List Char) : Option Nat :=
  cs.foldlM (fun n c =>
    if c.isDigit then some (16 * n + (c.toNat - 48))
    else if 'a' ≤ c ∧ c ≤ 'f' then some (16 * n + (c.toNat - 87))
    else if 'A' ≤ c ∧ c ≤ 'F' then some (16 * n + (c.toNat - 55))
    else none) 0

/-- the character that an escape of `n` digits stands for, and what follows it -/
def readCode (n : Nat) (cs : List Char) : Option (Char × List Char) :=
  if cs.length < n then none
  else (hexValue (cs.take n)).bind fun code =>
    if code.isValidChar then some (Char.ofNat code, cs.drop n) else none

def isTextChar (c : Char) : Bool := c = '\t' || 32 ≤ c.toNat && c.toNat ≠ 127

def takeBytes? : Nat → List Char → Option (List Char)
  | 0, _ => some []
  | _ + 1, [] => none
  | n + 1, c :: cs =>
    if c.utf8Size ≤ n + 1 then (takeBytes? (n + 1 - c.utf8Size) cs).map (c :: ·) else none

/-- a text with each escape replaced; the number bounds its length -/
def unescape : Nat → List Char → Option (List Char)
  | 0, _ => none
  | _, [] => some []
  | n + 1, '\\' :: rest =>
    let next (c : Char) (cs : List Char) := (unescape n cs).map (c :: ·)
    match rest with
    | '"' :: cs => next '"' cs
    | '\\' :: cs => next '\\' cs
    | 'b' :: cs => next (Char.ofNat 8) cs
    | 'f' :: cs => next (Char.ofNat 12) cs
    | 'n' :: cs => next '\n' cs
    | 'r' :: cs => next '\r' cs
    | 't' :: cs => next '\t' cs
    | 'u' :: cs => (readCode 4 cs).bind fun (c, cs) => next c cs
    | 'U' :: cs => (readCode 8 cs).bind fun (c, cs) => next c cs
    | _ => none
  | n + 1, c :: cs => if isTextChar c then (unescape n cs).map (c :: ·) else none

def orMalformed {α : Type} : Option α → Except Fault α
  | some a => .ok a
  | none => .error .malformed

/-- the text between quotes.  Of what stands before the first escape, as many bytes are kept as it
has characters: less of it if some are wide, and that may end inside of a character -/
def unquote (cs : List Char) : Except Fault (List Char) :=
  let start := cs.takeWhile (· ≠ '\\')
  let rest := cs.drop start.length
  if !start.all isTextChar then .error .malformed
  else if rest.isEmpty then .ok cs
  else
    match takeBytes? start.length start with
    | none => .error .cut
    | some kept => (orMalformed (unescape (rest.length + 1) rest)).map (kept ++ ·)

theorem takeWhile_plain {cs : List Char} (h : '\\' ∉ cs) :
    cs.takeWhile (· ≠ '\\') = cs := by
  induction cs with
  | nil => rfl
  | cons c cs ih =>
    rw [List.mem_cons, not_or] at h
    rw [List.takeWhile_cons_of_pos (by simpa using fun e => h.1 e.symm), ih h.2]

/-- a text without escapes stands for itself -/
theorem unquote_of_plain {cs : List Char} (h : '\\' ∉ cs) (t : cs.all isTextChar) :
    unquote cs = .ok cs := by
  unfold unquote
  rw [takeWhile_plain h]
  simp [t]

/-- what stands between quotes after the opening one, and what follows the closing one -/
def quoted : List Char → Option (List Char × List Char)
  | [] => none
  | '"' :: rest => some ([], rest)
  | '\\' :: c :: cs => (quoted cs).map fun (s, rest) => ('\\' :: c :: s, rest)
  | c :: cs => (quoted cs).map fun (s, rest) => (c :: s, rest)

def readString (cs : List Char) : Except Fault (String × List Char) := do
  let (inside, rest) ← orMalformed (quoted cs)
  return (String.ofList (← unquote inside), rest)

def readName (cs : List Char) : Except Fault (String × List Char) :=
  match cs with
  | '"' :: r => readString r
  | _ =>
    let name := cs.takeWhile isNameChar
    if name.isEmpty then .error .malformed
    else .ok (String.ofList name, cs.dropWhile isNameChar)

def after? (start cs : List Char) : Option (List Char) :=
  if start.isPrefixOf cs then some (cs.drop start.length) else none

mutual

/-- a value and what follows it; the first argument bounds the number of values -/
def readValue : Nat → List Char → Except Fault (Json × List Char)
  | 0, _ => .error .malformed
  | n + 1, cs => do
    let cs := cs.dropWhile isSpace
    let (j, rest) ←
      match after? ['t', 'r', 'u', 'e'] cs, after? ['f', 'a', 'l', 's', 'e'] cs with
      | some r, _ => .ok (.bool true, r)
      | none, some r => .ok (.bool false, r)
      | none, none =>
        match cs with
        | '[' :: r => (readItems n r).map fun (items, rest) => (.array items, rest)
        | '"' :: r => (readString r).map fun (s, rest) => (.string s, rest)
        | '\'' :: c :: '\'' :: r => .ok (.string (String.ofList [c]), r)
        | c :: r =>
          if c.toNat = 0x7b then
            (readMembers n r).map fun (members, rest) => (.object members, rest)
          else if c = '\'' then .error .malformed
          else .ok (plain (cs.takeWhile (!isSeparator ·)), cs.dropWhile (!isSeparator ·))
        | [] => .ok (plain [], [])
    return (j, rest.dropWhile isSpace)

def readItems : Nat → List Char → Except Fault (List Json × List Char)
  | 0, _ => .error .malformed
  | _ + 1, ']' :: rest => .ok ([], rest)
  | n + 1, cs => do
    match ← readValue n cs with
    | (j, ',' :: rest) => (readItems n rest).map fun (items, rest) => (j :: items, rest)
    | (j, ']' :: rest) => return ([j], rest)
    | _ => .error .malformed

/-- the members of a table after its brace; of members with the same name the last one counts -/
def readMembers : Nat → List Char → Except Fault (List (Option String × Json) × List Char)
  | 0, _ => .error .malformed
  | _ + 1, [] => .error .malformed
  | n + 1, c :: cs => do
    if c.toNat = 0x7d then return ([], cs)
    else
      let (name, rest) ← readName ((c :: cs).dropWhile isSpace)
      match rest.dropWhile isSpace with
      | '=' :: rest =>
        match ← readValue n (rest.dropWhile isSpace) with
        | (j, c :: rest) =>
          if c = ',' then
            (readMembers n rest).map fun (members, rest) =>
              (if (members.lookup (some name)).isSome then members else (some name, j) :: members,
                rest)
          else if c.toNat = 0x7d then return ([(some name, j)], rest)
          else .error .malformed
        | _ => .error .malformed
      | _ => .error .malformed

end

/-- the value of a text; none if a string in it ends inside of a character -/
def value? (text : String) : Option Json :=
  let cs := text.toList
  match readValue (2 * cs.length + 2) cs with
  | .ok (j, []) => some j
  | .error .cut => none
  | _ => some (.string text)

def nested (value : Json) : List String → Json
  | [] => value
  | name :: names => .object [(some name, nested value names)]

/-- a document with the setting of a variable put over it; other names set nothing -/
def assign? (document : Json) (name text : String) : Option Json :=
  match path? name with
  | some names => (value? text).map fun value => document.overlay (nested value names)
  | none => some document

end Variable

end EventBuckets
