import EventBuckets.Checksum

/-!
# A hash by multiplication

The hash that the program takes.  A word is added to the state, which is then multiplied; bytes are
folded to one word first, in two lanes.

* `Hasher`      the state, and an instance of `Hashing`;
* `foldedMul`   the halves of a product on top of each other;
* `hashBytes`   the word that bytes are folded to.
-/

namespace EventBuckets

/-! ## bytes -/

/-- the two halves of a product of 128 bits, folded onto each other -/
def foldedMul (x y : UInt64) : UInt64 :=
  let p := x.toNat * y.toNat
  UInt64.ofNat p ^^^ UInt64.ofNat (p >>> 64)

/-- the word that bytes spell, the lowest byte first -/
def littleEndian : List UInt8 → UInt64
  | [] => 0
  | b :: bs => b.toUInt64 ||| (littleEndian bs <<< 8)

/-- the two lanes of a hash of bytes -/
structure Lanes where
  first : UInt64
  second : UInt64

def Lanes.start : Lanes := ⟨0x243f6a8885a308d3, 0x13198a2e03707344⟩

/-- one block of 16 bytes -/
def Lanes.block (l : Lanes) (bytes : List UInt8) : Lanes :=
  let x := littleEndian (bytes.take 8)
  let y := littleEndian ((bytes.drop 8).take 8)
  ⟨l.second, foldedMul (l.first ^^^ x) (0xa4093822299f31d0 ^^^ y)⟩

def Lanes.blocks : Nat → Lanes → List UInt8 → Lanes
  | 0, l, _ => l
  | n + 1, l, bytes => Lanes.blocks n (l.block bytes) (bytes.drop 16)

def hashBytes (bytes : List UInt8) : UInt64 :=
  let n := bytes.length
  let last (k : Nat) : UInt64 := littleEndian ((bytes.drop (n - k)).take 8)
  let l :=
    if 16 < n then
      let l := Lanes.blocks ((n - 1) / 16) .start bytes
      ⟨l.first ^^^ last 16, l.second ^^^ last 8⟩
    else if 8 ≤ n then
      ⟨Lanes.start.first ^^^ littleEndian (bytes.take 8), Lanes.start.second ^^^ last 8⟩
    else if 4 ≤ n then
      ⟨Lanes.start.first ^^^ littleEndian (bytes.take 4), Lanes.start.second ^^^ last 4⟩
    else if 1 ≤ n then
      ⟨Lanes.start.first ^^^ littleEndian (bytes.take 1),
        Lanes.start.second ^^^ (last 1 <<< 8 ||| littleEndian ((bytes.drop (n / 2)).take 1))⟩
    else Lanes.start
  foldedMul l.first l.second ^^^ UInt64.ofNat n

/-! ## words -/

structure Hasher where
  state : UInt64

namespace Hasher

/-- the odd multiplier of each step -/
def multiplier : UInt64 := 0xf1357aea2e62a9c5

def add (h : Hasher) (word : UInt64) : Hasher := ⟨(h.state + word) * multiplier⟩

/-- the high bits, which depend on all of the words, moved to the low end -/
def finish (h : Hasher) : UInt64 := (h.state <<< 26) ||| (h.state >>> 38)

instance : Hashing where
  State := Hasher
  empty := ⟨0⟩
  word := add
  byte h b := h.add b.toUInt64
  bytes h bytes := h.add (hashBytes bytes)
  finish := finish

end Hasher

end EventBuckets
