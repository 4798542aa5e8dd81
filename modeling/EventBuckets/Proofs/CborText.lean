import EventBuckets.State.Cbor
import Mathlib.Tactic.Ring

/-!
# Reading CBOR items back

The reader takes exactly the bytes that a head or a text is written as, whatever follows them.

* `Cbor.Takes`              a reader takes some bytes, whatever follows, and makes a value of them;
* `ofBigEndian_bigEndian`   a number is read back from as many bytes as it fits;
* `exists_head`             a head is a byte with the major type, and bytes with the argument;
* `takes_itemHead`          the heads of texts, arrays and maps are read back;
* `takes_readText`, `takes_readName`
                            so are texts, and the names of fields.
-/

namespace EventBuckets.Cbor

/-! ## bytes of texts -/

theorem toList_eq (bs : ByteArray) : bs.toList = bs.data.toList := by
  have go (i : Nat) (r : List UInt8) :
      ByteArray.toList.loop bs i r = r.reverse ++ bs.data.toList.drop i := by
    fun_induction ByteArray.toList.loop bs i r with
    | case1 i r hi ih =>
      have hlt : i < bs.data.toList.length := hi
      have hget : bs.get! i = bs.data.toList[i] := by
        show bs.data[i]! = _
        rw [getElem!_pos bs.data i hlt, Array.getElem_toList]
      rw [ih, List.reverse_cons, List.append_assoc, List.singleton_append, hget,
        List.getElem_cons_drop]
    | case2 i r hi =>
      have hend : bs.data.toList.drop i = [] := List.drop_eq_nil_of_le (Nat.le_of_not_lt hi)
      rw [hend, List.append_nil]
  exact go 0 []

theorem length_utf8 (s : String) : s.toUTF8.toList.length = s.utf8ByteSize := by
  rw [toList_eq]
  rfl

theorem utf8?_utf8 (s : String) : utf8? s.toUTF8.toList = some s := by
  unfold utf8?
  rw [toList_eq]
  exact dif_pos s.isValidUTF8

theorem utf8_inj {s t : String} : s.toByteArray.toList = t.toByteArray.toList ↔ s = t := by
  refine ⟨fun h => ?_, congrArg fun u : String => u.toByteArray.toList⟩
  have hread := (utf8?_utf8 s).symm.trans ((congrArg utf8? h).trans (utf8?_utf8 t))
  exact Option.some.inj hread

/-! ## numbers -/

theorem bigEndian_succ (width n : Nat) :
    bigEndian (width + 1) n = UInt8.ofNat (n >>> (8 * width)) :: bigEndian width n := by
  unfold bigEndian
  rw [List.range_succ_eq_map, List.map_cons, List.map_map]
  congr 1
  apply List.map_congr_left
  intro i _
  show UInt8.ofNat (n >>> (8 * (width + 1 - 1 - (i + 1)))) = _
  rw [show width + 1 - 1 - (i + 1) = width - 1 - i by omega]

theorem length_bigEndian (width n : Nat) : (bigEndian width n).length = width := by
  unfold bigEndian
  rw [List.length_map, List.length_range]

theorem ofBigEndian_cons (b : UInt8) (bs : List UInt8) :
    ofBigEndian (b :: bs) = b.toNat * 256 ^ bs.length + ofBigEndian bs := by
  have go (bs : List UInt8) (n : Nat) : bs.foldl (fun n b => n * 256 + b.toNat) n =
      n * 256 ^ bs.length + ofBigEndian bs := by
    induction bs generalizing n with
    | nil => simp [ofBigEndian]
    | cons b bs ih =>
      unfold ofBigEndian
      rw [List.foldl_cons, List.foldl_cons, ih, ih (0 * 256 + b.toNat), List.length_cons]
      ring
  unfold ofBigEndian
  rw [List.foldl_cons, go, Nat.zero_mul, Nat.zero_add]
  rfl

/-- the bytes of a number spell its remainder -/
theorem ofBigEndian_bigEndian (width n : Nat) :
    ofBigEndian (bigEndian width n) = n % 256 ^ width := by
  induction width with
  | zero =>
    rw [Nat.pow_zero, Nat.mod_one]
    rfl
  | succ width ih =>
    rw [bigEndian_succ, ofBigEndian_cons, length_bigEndian, ih, UInt8.toNat_ofNat',
      Nat.shiftRight_eq_div_pow, Nat.pow_mul, show 2 ^ 8 = 256 from rfl, Nat.pow_succ 256 width,
      Nat.mod_mul]
    ring

/-! ## heads -/

/-- a reader takes some bytes, whatever follows them, and makes a value of them -/
def Takes {α : Type} (read : Reader α) (bs : List UInt8) (a : α) : Prop :=
  ∀ rest, read (bs ++ rest) = some (a, rest)

theorem takes_take (bs : List UInt8) : Takes (take bs.length) bs bs := by
  intro rest
  unfold take
  rw [List.take_left, if_pos rfl, List.drop_left]

theorem takes_repeated {α : Type} {read : Reader α} {write : α → List UInt8} {as : List α}
    (h : ∀ a ∈ as, Takes read (write a) a) :
    Takes (repeated read as.length) (as.flatMap write) as := by
  induction as with
  | nil => exact fun rest => rfl
  | cons a as ih =>
    intro rest
    have hrest := ih (fun b hb => h b (List.mem_cons_of_mem _ hb)) rest
    rw [List.flatMap_cons, List.append_assoc, List.length_cons, repeated,
      h a List.mem_cons_self]
    show (repeated read as.length (as.flatMap write ++ rest)).bind _ = _
    rw [hrest]
    rfl

theorem exists_head {major n : Nat} (hm : major < 8) (hn : n < 2 ^ 64) :
    ∃ b bs, head major n = b :: bs ∧ b.toNat / 32 = major ∧
      Takes (argument (b.toNat % 32)) bs (some n) := by
  have hfirst {minor : Nat} (h : minor < 32) :
      (UInt8.ofNat (major * 32 + minor)).toNat = major * 32 + minor := by
    rw [UInt8.toNat_ofNat', Nat.mod_eq_of_lt (by omega)]
  have hwide {minor width : Nat} (h : minor < 32) (hfits : n < 256 ^ width)
      (hminor : ∀ bs, argument minor bs =
        (take width bs).map (Prod.map (fun taken => some (ofBigEndian taken)) id)) :
      ∃ b bs, UInt8.ofNat (major * 32 + minor) :: bigEndian width n = b :: bs ∧
        b.toNat / 32 = major ∧ Takes (argument (b.toNat % 32)) bs (some n) := by
    refine ⟨_, _, rfl, by rw [hfirst h]; omega, fun rest => ?_⟩
    have htake := takes_take (bigEndian width n) rest
    rw [length_bigEndian] at htake
    rw [hfirst h, show (major * 32 + minor) % 32 = minor by omega, hminor, htake, Option.map_some]
    show some (some (ofBigEndian (bigEndian width n)), rest) = _
    rw [ofBigEndian_bigEndian, Nat.mod_eq_of_lt hfits]
  unfold head
  split
  next hlt =>
    refine ⟨_, [], rfl, by rw [hfirst (by omega)]; omega, fun rest => ?_⟩
    rw [hfirst (by omega), show (major * 32 + n) % 32 = n by omega]
    exact if_pos hlt
  · split
    next h1 => exact hwide (by decide) (by simpa using h1) fun _ => rfl
    · split
      next h2 => exact hwide (by decide) (by simpa using h2) fun _ => rfl
      · split
        next h4 => exact hwide (by decide) (by simpa using h4) fun _ => rfl
        · exact hwide (by decide) (by simpa using hn) fun _ => rfl

/-- the head of a text, an array or a map is read back -/
theorem takes_itemHead {major n : Nat} {kind : Option Nat → Head}
    (hk : (major, kind) ∈ [(3, Head.text), (4, Head.array), (5, Head.map)]) (hn : n < 2 ^ 64) :
    Takes itemHead (head major n) (kind (some n)) := by
  intro rest
  have hm : major < 8 := by
    simp only [List.mem_cons, Prod.mk.injEq, List.not_mem_nil, or_false] at hk
    omega
  obtain ⟨b, bs, hhead, hmajor, hargument⟩ := exists_head hm hn
  have hread : readHead (head major n ++ rest) = some (kind (some n), rest) := by
    rw [hhead, List.cons_append, readHead, hargument, hmajor]
    simp only [List.mem_cons, Prod.mk.injEq, List.not_mem_nil, or_false] at hk
    obtain ⟨rfl, rfl⟩ | ⟨rfl, rfl⟩ | ⟨rfl, rfl⟩ := hk
    · rfl
    · rfl
    · rfl
  unfold itemHead
  rw [hread]
  simp only [List.mem_cons, Prod.mk.injEq, List.not_mem_nil, or_false] at hk
  obtain ⟨-, rfl⟩ | ⟨-, rfl⟩ | ⟨-, rfl⟩ := hk
  · rfl
  · rfl
  · rfl

/-! ## texts -/

theorem takes_textBody (s : String) : Takes (textBody (some s.utf8ByteSize)) s.toUTF8.toList s := by
  intro rest
  have htake := takes_take s.toUTF8.toList rest
  rw [length_utf8] at htake
  show (take s.utf8ByteSize (s.toUTF8.toList ++ rest)).bind _ = _
  rw [htake]
  show (utf8? s.toUTF8.toList).bind _ = _
  rw [utf8?_utf8]
  rfl

/-- a text is read back -/
theorem takes_readText {s : String} (hs : s.utf8ByteSize < 2 ^ 64) : Takes readText (text s) s := by
  intro rest
  have hhead : Takes itemHead (head 3 s.utf8ByteSize) (.text (some s.utf8ByteSize)) :=
    takes_itemHead (by simp) hs
  unfold readText text
  rw [List.append_assoc, hhead]
  exact takes_textBody s rest

/-- the name of a field is read back -/
theorem takes_readName {s : String} (hs : s.utf8ByteSize ≤ nameLimit) :
    Takes readName (text s) s.toUTF8.toList := by
  intro rest
  have hhead : Takes itemHead (head 3 s.utf8ByteSize) (.text (some s.utf8ByteSize)) :=
    takes_itemHead (by simp) (lt_of_le_of_lt hs (by decide))
  have htake := takes_take s.toUTF8.toList rest
  rw [length_utf8] at htake
  unfold readName text
  rw [List.append_assoc, hhead]
  show (take s.utf8ByteSize (s.toUTF8.toList ++ rest)).bind _ = _
  rw [htake]
  exact if_pos ⟨hs, by rw [utf8?_utf8]; rfl⟩

end EventBuckets.Cbor
