import EventBuckets.Proofs.Rounding

/-!
# Sums of numbers, and shares of differences

A float that is NaN comes from somewhere: a sum of two numbers is NaN only if they are infinities of
opposite signs, and moving a number by a share of a difference leads to no infinity in the first
place.

* `unpacked`, `value`        a float before packing, and the rational number it stands for;
* `classified`               what a float is before packing: NaN, an infinity or canonical;
* `Opposed`, `isNaN_add_iff` infinities of opposite signs, the only numbers whose sum is NaN;
* `IsRounding`               a finite float that rounds a number;
* `key_lt_iff`, `key_le_iff` finite floats are ordered like the numbers they stand for;
* `isRounding_add`, `isRounding_sub`, `isRounding_mul`
                             what an operation gives, if the exact result is far from overflow;
* `IsWeight`                 a finite float from zero to one, as the weights of a sample are;
* `IsCount`                  a finite float in the range of sample counts, where smoothing keeps it.
-/

set_option linter.unusedSectionVars false

namespace EventBuckets

namespace Binary64

open Float.Model Float.Model.UnpackedFloat

/-! ## floats before packing -/

def unpacked (x : Binary64) : UnpackedFloat :=
  UnpackedFloat.unpack Format.binary64 x.bits.toBitVec

/-- the number that a finite float stands for -/
def value (x : Binary64) : ℚ := rational x.unpacked

def sign (x : Binary64) : Sign := Sign.ofBitVec (@unpackSign Format.binary64 x.bits.toBitVec)

section
variable (x : Binary64)

theorem toNat_unpackExponent :
    (@unpackExponent Format.binary64 x.bits.toBitVec).toNat = x.bits.toNat / 2 ^ 52 % 2 ^ 11 := by
  simp [unpackExponent, Nat.shiftRight_eq_div_pow]

theorem toNat_unpackMantissa :
    (@unpackMantissa Format.binary64 x.bits.toBitVec).toNat = x.bits.toNat % 2 ^ 52 := by
  simp [unpackMantissa]

theorem toNat_unpackSign :
    (@unpackSign Format.binary64 x.bits.toBitVec).toNat = x.bits.toNat / 2 ^ 63 := by
  have hlt := x.bits.toNat_lt
  have : x.bits.toNat / 2 ^ 63 % 2 = x.bits.toNat / 2 ^ 63 := Nat.mod_eq_of_lt (by omega)
  simpa [unpackSign, Nat.shiftRight_eq_div_pow] using this

theorem magnitude_eq :
    x.magnitude = (@unpackExponent Format.binary64 x.bits.toBitVec).toNat * 2 ^ 52 +
      (@unpackMantissa Format.binary64 x.bits.toBitVec).toNat := by
  rw [toNat_unpackExponent, toNat_unpackMantissa]
  show x.bits.toNat % 2 ^ 63 = _
  omega

theorem sign_eq : x.sign = if x.isNegative then .negative else .positive := by
  have hlt := x.bits.toNat_lt
  have hsign := toNat_unpackSign x
  unfold sign Sign.ofBitVec isNegative
  generalize @unpackSign Format.binary64 x.bits.toBitVec = b at hsign
  by_cases hb : b = 0#1
  · subst hb
    have hzero : x.bits.toNat / 2 ^ 63 = 0 := hsign.symm
    have : ¬0x8000000000000000 ≤ x.bits.toNat := by omega
    simp [this]
  · have hone : b.toNat ≠ 0 := fun h => hb (BitVec.toNat_inj.mp h)
    have : 0x8000000000000000 ≤ x.bits.toNat := by omega
    simp [hb, this]

end

variable {a b x : Binary64}

/-- the exponent field is full exactly for what is not finite -/
theorem unpackExponent_eq_iff :
    @unpackExponent Format.binary64 x.bits.toBitVec = -1#11 ↔ infinite ≤ x.magnitude := by
  have hmagnitude := magnitude_eq x
  have hm : (@unpackMantissa Format.binary64 x.bits.toBitVec).toNat < 2 ^ 52 := BitVec.isLt _
  have he : (@unpackExponent Format.binary64 x.bits.toBitVec).toNat < 2 ^ 11 := BitVec.isLt _
  rw [← BitVec.toNat_inj]
  show _ = 2047 ↔ 0x7ff0000000000000 ≤ _
  omega

theorem unpacked_of_isNaN (h : x.isNaN = true) : x.unpacked = .notANumber := by
  have h : infinite < x.magnitude := of_decide_eq_true h
  have he := unpackExponent_eq_iff.mpr h.le
  have hm : @unpackMantissa Format.binary64 x.bits.toBitVec ≠ 0#52 := by
    intro hm
    rw [magnitude_eq, he, hm] at h
    exact absurd h (by decide)
  exact (if_pos he).trans (if_neg hm)

theorem unpacked_of_isInfinite (h : x.isInfinite = true) : x.unpacked = .infinity x.sign := by
  have h : x.magnitude = infinite := of_decide_eq_true h
  have he := unpackExponent_eq_iff.mpr h.ge
  have hm : @unpackMantissa Format.binary64 x.bits.toBitVec = 0#52 := by
    rw [magnitude_eq, he] at h
    have h : 2047 * 2 ^ 52 + (@unpackMantissa Format.binary64 x.bits.toBitVec).toNat =
      0x7ff0000000000000 := h
    exact BitVec.toNat_inj.mp (show _ = 0 by omega)
  exact (if_pos he).trans (if_pos hm)

theorem canonical_of_isFinite (h : x.isFinite = true) : Canonical x.unpacked := by
  have h : x.magnitude < infinite := of_decide_eq_true h
  have hm : (@unpackMantissa Format.binary64 x.bits.toBitVec).toNat < 2 ^ 52 := BitVec.isLt _
  have hb : (Format.exponentBias Format.binary64 : ℤ) = 1023 := rfl
  unfold unpacked UnpackedFloat.unpack
  simp only [hb]
  rw [if_neg (mt unpackExponent_eq_iff.mp h.not_ge)]
  split
  next hzero =>
    have hzero : (@unpackExponent Format.binary64 x.bits.toBitVec).toNat = 0 :=
      congrArg BitVec.toNat hzero
    split
    · exact .zero _
    · have hleast : ((@unpackExponent Format.binary64 x.bits.toBitVec).toNat : ℤ) - (1023 + 52) + 1 =
        -1074 := by omega
      exact .finite _ (by omega) hleast.ge (.inr hleast)
  next hzero =>
    have hpos : (@unpackExponent Format.binary64 x.bits.toBitVec).toNat ≠ 0 :=
      fun h => hzero (BitVec.toNat_inj.mp h)
    have hleast : (-1074 : ℤ) ≤
      (@unpackExponent Format.binary64 x.bits.toBitVec).toNat - (1023 + 52) := by omega
    refine .finite _ (BitVec.isLt _) hleast (.inl ?_)
    rw [BitVec.toNat_append, ← Nat.shiftLeft_add_eq_or_of_lt (BitVec.isLt _)]
    exact Nat.le_add_right (2 ^ 52) _

/-- what a float is before packing -/
theorem classified (x : Binary64) :
    x.isNaN = true ∧ x.unpacked = .notANumber ∨
    x.isInfinite = true ∧ x.unpacked = .infinity x.sign ∨
    x.isFinite = true ∧ Canonical x.unpacked := by
  rcases lt_trichotomy x.magnitude infinite with h | h | h
  · exact .inr (.inr ⟨decide_eq_true h, canonical_of_isFinite (decide_eq_true h)⟩)
  · exact .inr (.inl ⟨decide_eq_true h, unpacked_of_isInfinite (decide_eq_true h)⟩)
  · exact .inl ⟨decide_eq_true h, unpacked_of_isNaN (decide_eq_true h)⟩

theorem isNaN_iff : x.isNaN = true ↔ x.unpacked = .notANumber := by
  refine ⟨unpacked_of_isNaN, fun h => ?_⟩
  rcases classified x with ⟨hn, -⟩ | ⟨-, hu⟩ | ⟨-, hu⟩
  · exact hn
  · rw [h] at hu
    cases hu
  · rw [h] at hu
    cases hu

theorem isFinite_iff : x.isFinite = true ↔ Canonical x.unpacked := by
  refine ⟨canonical_of_isFinite, fun h => ?_⟩
  rcases classified x with ⟨-, hu⟩ | ⟨-, hu⟩ | ⟨hf, -⟩
  · rw [hu] at h
    cases h
  · rw [hu] at h
    cases h
  · exact hf

theorem isNaN_of_isFinite (h : x.isFinite = true) : x.isNaN = false := by
  have h : x.magnitude < infinite := of_decide_eq_true h
  exact decide_eq_false h.not_gt

/-! ## operations -/

theorem unpack_ofBits (x : Binary64) : (Float.Model.ofBits x.bits).unpack = x.unpacked := by
  show UnpackedFloat.unpack Format.binary64 (UnpackedFloat.pack Format.binary64
    (UnpackedFloat.unpack Format.binary64 x.bits.toBitVec)) = _
  rw [pack_unpack]
  split
  next h =>
    obtain ⟨he, hm⟩ := of_decide_eq_true h
    rw [unpack_packedNaN]
    exact ((if_pos he).trans (if_neg hm)).symm
  next => rfl

/-- a result is what the operation on floats before packing gives, packed and unpacked again -/
theorem unpacked_ofResult (u : UnpackedFloat) :
    (ofResult ⟨Float.Model.pack u⟩).unpacked = repacked u := by
  unfold ofResult
  split
  next h =>
    have h : (repacked u).isNaN = true := h
    rw [UnpackedFloat.isNaN_iff.mp h]
    exact unpacked_of_isNaN (by decide)
  next => rfl

theorem unpacked_lift {f : Float → Float → Float}
    {op : UnpackedFloat → UnpackedFloat → UnpackedFloat}
    (hop : ∀ x y : Float, f x y = ⟨Float.Model.pack (op x.toModel.unpack y.toModel.unpack)⟩)
    (ha : a.isNaN = false) (hb : b.isNaN = false) :
    (lift f a b).unpacked = repacked (op a.unpacked b.unpacked) := by
  unfold lift
  rw [ha, hb, hop]
  show (ofResult ⟨Float.Model.pack (op (Float.Model.ofBits a.bits).unpack
    (Float.Model.ofBits b.bits).unpack)⟩).unpacked = _
  rw [unpack_ofBits, unpack_ofBits, unpacked_ofResult]

section
variable (ha : a.isNaN = false) (hb : b.isNaN = false)
include ha hb

theorem unpacked_add :
    (a + b).unpacked = repacked (UnpackedFloat.add Format.binary64 a.unpacked b.unpacked) :=
  unpacked_lift (fun _ _ => rfl) ha hb

theorem unpacked_sub :
    (a - b).unpacked = repacked (UnpackedFloat.sub Format.binary64 a.unpacked b.unpacked) :=
  unpacked_lift (fun _ _ => rfl) ha hb

theorem unpacked_mul :
    (a * b).unpacked = repacked (UnpackedFloat.mul Format.binary64 a.unpacked b.unpacked) :=
  unpacked_lift (fun _ _ => rfl) ha hb

end

/-! ## canonical operands -/

theorem apply_neg (s : Sign) (n : ℤ) : (-s).apply n = -s.apply n := by
  cases s with
  | positive => rfl
  | negative => exact (neg_neg n).symm

theorem apply_mul (s t : Sign) (m n : ℤ) : (s * t).apply (m * n) = s.apply m * t.apply n := by
  cases s with
  | positive =>
    cases t with
    | positive => rfl
    | negative => exact (mul_neg m n).symm
  | negative =>
    cases t with
    | positive => exact (neg_mul m n).symm
    | negative => exact (neg_mul_neg m n).symm

theorem aligned (s : Sign) (m : ℕ) {e f : ℤ} (h : f ≤ e) :
    ((s.apply (decreaseExponent m e f).1 : ℤ) : ℚ) * 2 ^ f = s.apply m * 2 ^ e := by
  obtain ⟨k, rfl⟩ := Int.le.dest h
  have hk : (f + k - f).toNat = k := by omega
  have hm : (decreaseExponent m (f + k) f).1 = m * 2 ^ k := by
    show m <<< (f + k - f).toNat = _
    rw [hk, Nat.shiftLeft_eq]
  rw [hm, zpow_add₀ two_ne_zero, zpow_natCast]
  cases s <;> simp [Sign.apply] <;> ring

section
variable {u v : UnpackedFloat}

theorem add_spec (hu : Canonical u) (hv : Canonical v) :
    Canonical (UnpackedFloat.add Format.binary64 u v) ∧
      Rounds (rational u + rational v) (rational (UnpackedFloat.add Format.binary64 u v)) := by
  cases hu with
  | zero s =>
    cases hv with
    | zero t =>
      show Canonical (if s == t then .zero s else .zero .positive) ∧
        Rounds (0 + 0) (rational (if s == t then .zero s else .zero .positive))
      split
      · exact ⟨.zero s, .of_eq (add_zero 0)⟩
      · exact ⟨.zero .positive, .of_eq (add_zero 0)⟩
    | finite t hhigh hleast hform => exact ⟨.finite t hhigh hleast hform, .of_eq (zero_add _)⟩
  | @finite s m e hm hhigh hleast hform =>
    cases hv with
    | zero t => exact ⟨.finite s hhigh hleast hform, .of_eq (add_zero _)⟩
    | @finite t n f hn =>
      have hspec := normalize_spec (s.apply (decreaseExponent m e (min e f)).1 +
        t.apply (decreaseExponent n f (min e f)).1) (min e f) .positive
      rw [Int.cast_add, add_mul, aligned s m (min_le_left e f),
        aligned t n (min_le_right e f)] at hspec
      exact hspec

theorem Canonical.neg (hv : Canonical v) : Canonical v.neg := by
  cases hv with
  | zero t => exact .zero (-t)
  | finite t hhigh hleast hform => exact .finite (-t) hhigh hleast hform

theorem rational_neg (v : UnpackedFloat) : rational v.neg = -rational v := by
  cases v with
  | finite t n f hn =>
    show (((-t).apply n : ℤ) : ℚ) * 2 ^ f = -((t.apply n : ℤ) * 2 ^ f)
    rw [apply_neg, Int.cast_neg, neg_mul]
  | _ => exact neg_zero.symm

theorem sub_eq_add (hu : Canonical u) (hv : Canonical v) :
    UnpackedFloat.sub Format.binary64 u v = UnpackedFloat.add Format.binary64 u v.neg := by
  cases hu with
  | zero s => cases hv <;> rfl
  | finite s =>
    cases hv with
    | zero t => rfl
    | finite t =>
      simp only [UnpackedFloat.sub, UnpackedFloat.add, UnpackedFloat.neg, apply_neg, Int.sub_eq_add_neg]

theorem sub_spec (hu : Canonical u) (hv : Canonical v) :
    Canonical (UnpackedFloat.sub Format.binary64 u v) ∧
      Rounds (rational u - rational v) (rational (UnpackedFloat.sub Format.binary64 u v)) := by
  have hspec := add_spec hu hv.neg
  rw [rational_neg, ← sub_eq_add_neg, ← sub_eq_add hu hv] at hspec
  exact hspec

/-- the product of two mantissas has bits to spare, unless both are at the least exponent -/
theorem mul_spec (hu : Canonical u) (hv : Canonical v) :
    Canonical (UnpackedFloat.mul Format.binary64 u v) ∧
      Rounds (rational u * rational v) (rational (UnpackedFloat.mul Format.binary64 u v)) := by
  cases hu with
  | zero s => cases hv <;> exact ⟨.zero _, .of_eq (zero_mul _)⟩
  | @finite s m e hm _ _ hform =>
    cases hv with
    | zero t => exact ⟨.zero _, .of_eq (mul_zero _)⟩
    | @finite t n f hn _ _ hform' =>
      have hspare : 2 ^ 52 ≤ m * n ∨ e + f ≤ -1074 := by
        rcases hform with hlow | rfl
        · exact .inl (hlow.trans (Nat.le_mul_of_pos_right m hn))
        · rcases hform' with hlow | rfl
          · exact .inl (hlow.trans (Nat.le_mul_of_pos_left n hm))
          · exact .inr (by decide)
      have hspec := roundWithAccuracy_spec (s * t) hspare
      rw [Nat.cast_mul, apply_mul, Int.cast_mul, zpow_add₀ two_ne_zero, mul_mul_mul_comm] at hspec
      exact hspec

end

/-! ## sums -/

/-- infinities of opposite signs -/
def Opposed (a b : Binary64) : Prop :=
  a.isInfinite = true ∧ b.isInfinite = true ∧ a.isNegative ≠ b.isNegative

instance : DecidableRel Opposed := fun _ _ => inferInstanceAs (Decidable (_ ∧ _ ∧ _))

theorem not_isInfinite_of_isFinite (h : x.isFinite = true) : x.isInfinite = false := by
  have h : x.magnitude < infinite := of_decide_eq_true h
  exact decide_eq_false h.ne

/-- packing makes no NaN of a number -/
theorem isNaN_of_unpacked {u : UnpackedFloat}
    (hx : x.unpacked = repacked u)
    (hu : Canonical u ∨ ∃ s, u = .infinity s) : x.isNaN = false := by
  rw [Bool.eq_false_iff, Ne, isNaN_iff, hx]
  intro hn
  rcases hu with hu | ⟨s, rfl⟩
  · rcases hu.repacked with he | ⟨-, s, he⟩
    · rw [← he, hn] at hu
      cases hu
    · rw [he] at hn
      cases hn
  · exact absurd ((repacked_infinity s).symm.trans hn) nofun

theorem infinity_add (s : Sign) {u : UnpackedFloat} (hu : Canonical u) :
    UnpackedFloat.add Format.binary64 (.infinity s) u = .infinity s := by
  cases hu <;> rfl

theorem add_infinity (s : Sign) {u : UnpackedFloat} (hu : Canonical u) :
    UnpackedFloat.add Format.binary64 u (.infinity s) = .infinity s := by
  cases hu <;> rfl

/-- the only numbers with a sum that is NaN are infinities of opposite signs -/
theorem isNaN_add_iff (ha : a.isNaN = false) (hb : b.isNaN = false) :
    (a + b).isNaN = true ↔ Opposed a b := by
  let sum := UnpackedFloat.add Format.binary64 a.unpacked b.unpacked
  have hsum : (a + b).unpacked = repacked sum := unpacked_add ha hb
  have hnumber (hu : Canonical sum ∨ ∃ s, sum = .infinity s) (hne : ¬Opposed a b) :
      (a + b).isNaN = true ↔ Opposed a b := by
    rw [isNaN_of_unpacked hsum hu]
    simpa using hne
  rcases classified a with ⟨hn, -⟩ | ⟨hia, hua⟩ | ⟨hfa, hua⟩
  · exact absurd hn (by simp [ha])
  · rcases classified b with ⟨hn, -⟩ | ⟨hib, hub⟩ | ⟨hfb, hub⟩
    · exact absurd hn (by simp [hb])
    · have hadd : sum = if a.sign == b.sign then .infinity a.sign else .notANumber := by
        show UnpackedFloat.add Format.binary64 a.unpacked b.unpacked = _
        rw [hua, hub]
        rfl
      have hsign : (a.sign == b.sign) = (a.isNegative == b.isNegative) := by
        rw [sign_eq, sign_eq]
        cases a.isNegative <;> cases b.isNegative <;> rfl
      by_cases hs : a.isNegative = b.isNegative
      · refine hnumber (.inr ⟨a.sign, ?_⟩) fun h => h.2.2 hs
        rw [hadd, hsign, hs, beq_self_eq_true]
        rfl
      · rw [isNaN_iff, hsum, hadd, hsign, beq_false_of_ne hs]
        exact iff_of_true repacked_notANumber ⟨hia, hib, hs⟩
    · refine hnumber (.inr ⟨a.sign, ?_⟩) fun h => absurd h.2.1 ?_
      · show UnpackedFloat.add Format.binary64 a.unpacked b.unpacked = _
        rw [hua, infinity_add a.sign hub]
      · simp [not_isInfinite_of_isFinite hfb]
  · have hne : ¬Opposed a b := fun h => absurd h.1 (by simp [not_isInfinite_of_isFinite hfa])
    rcases classified b with ⟨hn, -⟩ | ⟨-, hub⟩ | ⟨-, hub⟩
    · exact absurd hn (by simp [hb])
    · refine hnumber (.inr ⟨b.sign, ?_⟩) hne
      show UnpackedFloat.add Format.binary64 a.unpacked b.unpacked = _
      rw [hub, add_infinity b.sign hua]
    · exact hnumber (.inl (add_spec hua hub).1) hne

/-! ## finite results -/

/-- a finite float that rounds a number -/
structure IsRounding (q : ℚ) (x : Binary64) : Prop where
  finite : x.isFinite = true
  rounds : Rounds q x.value

/-- a canonical result is packed as it is, if the exact one is far from overflow -/
theorem isRounding_of_unpacked {u : UnpackedFloat} {q : ℚ}
    (hx : x.unpacked = repacked u)
    (hu : Canonical u ∧ Rounds q (rational u)) (hq : |q| ≤ 2 ^ 1023) : IsRounding q x := by
  obtain ⟨hcanonical, hrounds⟩ := hu
  rcases hcanonical.repacked with he | ⟨hlarge, -⟩
  · rw [he] at hx
    refine ⟨isFinite_iff.mpr (hx ▸ hcanonical), ?_⟩
    unfold value
    rwa [hx]
  · exact absurd (hrounds.magnitude_le (representable_two_pow 1023) hq) hlarge.not_ge

section
variable (ha : a.isFinite = true) (hb : b.isFinite = true)
include ha hb

theorem isRounding_add (h : |a.value + b.value| ≤ 2 ^ 1023) :
    IsRounding (a.value + b.value) (a + b) :=
  isRounding_of_unpacked (unpacked_add (isNaN_of_isFinite ha) (isNaN_of_isFinite hb))
    (add_spec (canonical_of_isFinite ha) (canonical_of_isFinite hb)) h

theorem isRounding_sub (h : |a.value - b.value| ≤ 2 ^ 1023) :
    IsRounding (a.value - b.value) (a - b) :=
  isRounding_of_unpacked (unpacked_sub (isNaN_of_isFinite ha) (isNaN_of_isFinite hb))
    (sub_spec (canonical_of_isFinite ha) (canonical_of_isFinite hb)) h

theorem isRounding_mul (h : |a.value * b.value| ≤ 2 ^ 1023) :
    IsRounding (a.value * b.value) (a * b) :=
  isRounding_of_unpacked (unpacked_mul (isNaN_of_isFinite ha) (isNaN_of_isFinite hb))
    (mul_spec (canonical_of_isFinite ha) (canonical_of_isFinite hb)) h

end

theorem isRounding_ofNat (n : ℕ) : IsRounding (n % 2 ^ 64 : ℕ) (ofNat n) := by
  have hlt : n % 2 ^ 64 < 2 ^ 64 := Nat.mod_lt n (Nat.two_pow_pos 64)
  have hspec := normalize_spec (n % 2 ^ 64 : ℕ) 0 .positive
  rw [Int.cast_natCast, zpow_zero, mul_one] at hspec
  refine isRounding_of_unpacked rfl hspec ?_
  rw [abs_of_nonneg (Nat.cast_nonneg _)]
  calc ((n % 2 ^ 64 : ℕ) : ℚ) ≤ 2 ^ 64 := by exact_mod_cast hlt.le
    _ ≤ 2 ^ 1023 := pow_le_pow_right₀ one_le_two (by decide)

/-! ## order -/

/-- a finite float has its own sign, and its place is told by its exponent and its mantissa -/
theorem of_unpacked_eq_finite {s : Sign} {m : ℕ} {e : ℤ} {hm : 0 < m}
    (h : x.unpacked = .finite s m e hm) :
    s = x.sign ∧ (x.magnitude : ℤ) = (e + 1074) * 2 ^ 52 + m := by
  have hmagnitude := magnitude_eq x
  have hb : (Format.exponentBias Format.binary64 : ℤ) = 1023 := rfl
  unfold unpacked UnpackedFloat.unpack at h
  simp only [hb] at h
  split at h
  · split at h
    · cases h
    · cases h
  · split at h
    next hzero =>
      have hzero : (@unpackExponent Format.binary64 x.bits.toBitVec).toNat = 0 :=
        congrArg BitVec.toNat hzero
      split at h
      · cases h
      · obtain ⟨rfl, rfl, rfl⟩ := UnpackedFloat.finite.inj h
        exact ⟨rfl, by omega⟩
    next =>
      obtain ⟨rfl, rfl, rfl⟩ := UnpackedFloat.finite.inj h
      refine ⟨rfl, ?_⟩
      rw [BitVec.toNat_append, ← Nat.shiftLeft_add_eq_or_of_lt (BitVec.isLt _)]
      show (x.magnitude : ℤ) = (((@unpackExponent Format.binary64 x.bits.toBitVec).toNat : ℤ) -
        (1023 + 52) + 1074) * 2 ^ 52 +
          (2 ^ 52 + (@unpackMantissa Format.binary64 x.bits.toBitVec).toNat : ℕ)
      rw [hmagnitude]
      push_cast
      ring

theorem of_unpacked_eq_zero {s : Sign} (h : x.unpacked = .zero s) : x.magnitude = 0 := by
  have hmagnitude := magnitude_eq x
  unfold unpacked UnpackedFloat.unpack at h
  dsimp only at h
  split at h
  · split at h
    · cases h
    · cases h
  · split at h
    next hzero =>
      have hzero : (@unpackExponent Format.binary64 x.bits.toBitVec).toNat = 0 :=
        congrArg BitVec.toNat hzero
      split at h
      next hnone =>
        have hnone : (@unpackMantissa Format.binary64 x.bits.toBitVec).toNat = 0 :=
          congrArg BitVec.toNat hnone
        omega
      next => cases h
    next => cases h

/-- place and number of a finite float; the leading bit is in the mantissa unless the exponent is
the least one -/
theorem exists_magnitude (h : x.isFinite = true) :
    ∃ (m : ℕ) (e : ℤ), m < 2 ^ 53 ∧ -1074 ≤ e ∧ (2 ^ 52 ≤ m ∨ e = -1074) ∧
      (x.magnitude : ℤ) = (e + 1074) * 2 ^ 52 + m ∧ |x.value| = m * 2 ^ e := by
  have hcanonical := canonical_of_isFinite h
  unfold value
  generalize hu : x.unpacked = u at hcanonical
  cases hcanonical with
  | zero s =>
    have hzero := of_unpacked_eq_zero hu
    exact ⟨0, -1074, by decide, le_rfl, .inr rfl, by omega, by simp [rational]⟩
  | @finite s m e hm hhigh hleast hform =>
    exact ⟨m, e, hhigh, hleast, hform, (of_unpacked_eq_finite hu).2, abs_rational s hm⟩

theorem value_eq (h : x.isFinite = true) :
    x.value = if x.isNegative then -|x.value| else |x.value| := by
  have hcanonical := canonical_of_isFinite h
  unfold value
  generalize hu : x.unpacked = u at hcanonical
  cases hcanonical with
  | zero s => simp [rational]
  | @finite s m e hm =>
    rw [abs_rational s hm, (of_unpacked_eq_finite hu).1, sign_eq]
    split <;> simp [rational, Sign.apply]

/-- a greater exponent outweighs the mantissas -/
theorem scaled_lt {m m' : ℕ} {e e' : ℤ} (hm : m < 2 ^ 53) (hleast : -1074 ≤ e)
    (hform : 2 ^ 52 ≤ m ∨ e = -1074) (hm' : m' < 2 ^ 53) (hleast' : -1074 ≤ e')
    (hform' : 2 ^ 52 ≤ m' ∨ e' = -1074)
    (h : (e + 1074) * 2 ^ 52 + m < (e' + 1074) * 2 ^ 52 + m') :
    (m : ℚ) * 2 ^ e < m' * 2 ^ e' := by
  rcases lt_trichotomy e e' with he | rfl | he
  · have hm' : (2 : ℚ) ^ 52 ≤ m' := by exact_mod_cast hform'.resolve_right (by omega)
    have hm : (m : ℚ) < 2 ^ 53 := by exact_mod_cast hm
    have hpow : (2 : ℚ) ^ (e + 1) ≤ 2 ^ e' := zpow_le_zpow_right₀ one_le_two he
    calc (m : ℚ) * 2 ^ e < 2 ^ 53 * 2 ^ e := by gcongr
      _ = 2 ^ 52 * 2 ^ (e + 1) := by rw [zpow_add_one₀ two_ne_zero]; ring
      _ ≤ m' * 2 ^ e' := by gcongr
  · have hm : (m : ℚ) < m' := by exact_mod_cast (by omega : m < m')
    gcongr
  · omega

theorem abs_value_lt (ha : a.isFinite = true) (hb : b.isFinite = true)
    (h : a.magnitude < b.magnitude) : |a.value| < |b.value| := by
  obtain ⟨m, e, hm, hleast, hform, hplace, hvalue⟩ := exists_magnitude ha
  obtain ⟨m', e', hm', hleast', hform', hplace', hvalue'⟩ := exists_magnitude hb
  rw [hvalue, hvalue']
  exact scaled_lt hm hleast hform hm' hleast' hform' (by omega)

theorem abs_value_congr (ha : a.isFinite = true) (hb : b.isFinite = true)
    (h : a.magnitude = b.magnitude) : |a.value| = |b.value| := by
  obtain ⟨m, e, hm, hleast, hform, hplace, hvalue⟩ := exists_magnitude ha
  obtain ⟨m', e', hm', hleast', hform', hplace', hvalue'⟩ := exists_magnitude hb
  have he : e = e' := by omega
  have hmantissa : m = m' := by omega
  rw [hvalue, hvalue', he, hmantissa]

theorem magnitude_lt_iff (ha : a.isFinite = true) (hb : b.isFinite = true) :
    a.magnitude < b.magnitude ↔ |a.value| < |b.value| := by
  refine ⟨abs_value_lt ha hb, fun h => ?_⟩
  rcases lt_trichotomy a.magnitude b.magnitude with hlt | heq | hgt
  · exact hlt
  · exact absurd (abs_value_congr ha hb heq) h.ne
  · exact absurd (abs_value_lt hb ha hgt) h.not_gt

theorem magnitude_pos_iff (h : x.isFinite = true) : 0 < x.magnitude ↔ 0 < |x.value| := by
  have hzero := magnitude_lt_iff (a := 0) (by decide) h
  rwa [show (0 : Binary64).value = 0 from rfl, abs_zero] at hzero

theorem key_lt_iff (ha : a.isFinite = true) (hb : b.isFinite = true) :
    a.key < b.key ↔ a.value < b.value := by
  have hlt := magnitude_lt_iff ha hb
  have hgt := magnitude_lt_iff hb ha
  have hapos := magnitude_pos_iff ha
  have hbpos := magnitude_pos_iff hb
  have ha₀ := abs_nonneg a.value
  have hb₀ := abs_nonneg b.value
  unfold key
  rw [value_eq ha, value_eq hb]
  generalize |a.value| = v at *
  generalize |b.value| = w at *
  cases a.isNegative <;> cases b.isNegative
  · simpa using hlt
  · simp only [Bool.false_eq_true, if_false, if_true]
    exact iff_of_false (by omega) (by linarith)
  · have hkeys : -(a.magnitude : ℤ) < b.magnitude ↔ 0 < a.magnitude ∨ 0 < b.magnitude := by omega
    have hvalues : -v < w ↔ 0 < v ∨ 0 < w := by
      refine ⟨fun h => ?_, fun h => h.elim (fun hv => by linarith) fun hw => by linarith⟩
      by_contra hnone
      rw [not_or, not_lt, not_lt] at hnone
      linarith
    simp only [Bool.false_eq_true, if_false, if_true]
    rw [hkeys, hvalues, hapos, hbpos]
  · simpa using hgt

theorem key_le_iff (ha : a.isFinite = true) (hb : b.isFinite = true) :
    a.key ≤ b.key ↔ a.value ≤ b.value := by
  rw [← not_lt, ← not_lt, key_lt_iff hb ha]

/-! ## shares -/

theorem representable_value (h : x.isFinite = true) (hpos : 0 ≤ x.value) :
    Representable x.value := by
  have := (canonical_of_isFinite h).representable
  rwa [show rational x.unpacked = x.value from rfl, abs_of_nonneg hpos] at this

/-- a finite float from zero to one -/
structure IsWeight (x : Binary64) : Prop where
  finite : x.isFinite = true
  nonneg : 0 ≤ x.value
  le_one : x.value ≤ 1

theorem isWeight_of_isShare (h : Config.isShare x = true) : IsWeight x := by
  have hone : (1 : Binary64).key = 1023 * 2 ^ 52 := by decide
  obtain ⟨hpos, hle⟩ : 0 < x.key ∧ x.key ≤ (1 : Binary64).key := by
    simpa only [Config.isShare, Bool.and_eq_true, decide_eq_true_eq] using h
  have hkey : x.key = x.magnitude := by
    unfold key at hpos ⊢
    split at hpos
    next => omega
    next hneg => exact if_neg hneg
  have hfinite : x.isFinite = true := by
    have : x.magnitude < 0x7ff0000000000000 := by omega
    exact decide_eq_true this
  refine ⟨hfinite, ?_, ?_⟩
  · have hkey : (0 : Binary64).key ≤ x.key := hpos.le
    exact (key_le_iff (by decide) hfinite).mp hkey
  · have hvalue : (1 : Binary64).value = 1 := by
      show ((2 ^ 52 : ℕ) : ℚ) * 2 ^ (-52 : ℤ) = 1
      norm_num
    exact hvalue ▸ (key_le_iff hfinite (by decide)).mp hle

/-- a share of a number is between that and zero -/
theorem IsWeight.mul_mem {weight : Binary64} (hw : IsWeight weight) {d low high : ℚ}
    (hlow : low ≤ 0) (hlow' : low ≤ d) (hhigh : 0 ≤ high) (hhigh' : d ≤ high) :
    low ≤ weight.value * d ∧ weight.value * d ≤ high := by
  have hw₀ := hw.nonneg
  have hw₁ := hw.le_one
  constructor
  · calc low ≤ weight.value * low := le_mul_of_le_one_left hlow hw₁
      _ ≤ weight.value * d := mul_le_mul_of_nonneg_left hlow' hw₀
  · calc weight.value * d ≤ weight.value * high := mul_le_mul_of_nonneg_left hhigh' hw₀
      _ ≤ high := mul_le_of_le_one_left hhigh hw₁

end Binary64

open Binary64

/-! ## smoothed counts -/

/-- a finite float from zero to twice the limit of whole numbers -/
structure IsCount (x : Binary64) : Prop where
  finite : x.isFinite = true
  nonneg : 0 ≤ x.value
  le : x.value ≤ 2 ^ 65

theorem isCount_zero : IsCount 0 := by
  have hvalue : (0 : Binary64).value = 0 := rfl
  refine ⟨by decide, hvalue.ge, ?_⟩
  rw [hvalue]
  positivity

theorem isCount_ofNat (n : ℕ) : IsCount (.ofNat n) ∧ (Binary64.ofNat n).value ≤ 2 ^ 64 := by
  obtain ⟨hfinite, hrounds⟩ := isRounding_ofNat n
  have hle : (Binary64.ofNat n).value ≤ 2 ^ 64 := by
    refine hrounds.upper (representable_two_pow 64) ?_
    exact_mod_cast (Nat.mod_lt n (Nat.two_pow_pos 64)).le
  exact ⟨⟨hfinite, hrounds.nonneg (Nat.cast_nonneg _),
    hle.trans (pow_le_pow_right₀ one_le_two (by decide))⟩, hle⟩

/-- a smoothed count is not negative, since neither the difference nor a share of it is less than
the number taken back; and it is above the limit of whole numbers only if it has become less -/
theorem IsCount.smoothed {weight x : Binary64} (hw : IsWeight weight) (hx : IsCount x) (n : ℕ) :
    IsCount (smoothed weight x n) := by
  unfold EventBuckets.smoothed
  split
  · exact (isCount_ofNat n).1
  obtain ⟨hn, hlimit⟩ := isCount_ofNat n
  generalize Binary64.ofNat n = y at hn hlimit
  have hx₀ := hx.nonneg
  have hx₁ := hx.le
  have hy₀ := hn.nonneg
  have hfar {q : ℚ} (hlow : -2 ^ 66 ≤ q) (hhigh : q ≤ 2 ^ 66) : |q| ≤ 2 ^ 1023 :=
    (abs_le.mpr ⟨hlow, hhigh⟩).trans (pow_le_pow_right₀ one_le_two (by decide))
  -- the difference
  obtain ⟨hdiff, hd⟩ := isRounding_sub hn.finite hx.finite (hfar (by linarith) (by linarith))
  generalize y - x = d at hdiff hd
  have hd₀ : -x.value ≤ d.value := hd.lower (representable_value hx.finite hx₀) (by linarith)
  have hd₁ : d.value ≤ y.value := hd.upper (representable_value hn.finite hy₀) (by linarith)
  -- the share of it
  obtain ⟨hp₀, hp₁⟩ := hw.mul_mem (neg_nonpos.mpr hx₀) hd₀ hy₀ hd₁
  obtain ⟨hshare, hs⟩ := isRounding_mul hw.finite hdiff (hfar (by linarith) (by linarith))
  have hs₀ := hs.lower (representable_value hx.finite hx₀) hp₀
  have hs₁ := hs.upper (representable_value hn.finite hy₀) hp₁
  have hless : y.value ≤ x.value → (weight * d).value ≤ 0 := fun hle =>
    hs.nonpos (mul_nonpos_of_nonneg_of_nonpos hw.nonneg (hd.nonpos (by linarith)))
  generalize weight * d = share at hshare hs₀ hs₁ hless
  -- the new number
  obtain ⟨hsum, hr⟩ := isRounding_add hx.finite hshare (hfar (by linarith) (by linarith))
  refine ⟨hsum, hr.nonneg (by linarith), hr.upper (representable_two_pow 65) ?_⟩
  rcases le_total y.value x.value with hle | hle
  · linarith [hless hle]
  · linarith

end EventBuckets
