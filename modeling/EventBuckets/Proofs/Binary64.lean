import Mathlib
import EventBuckets.Series.SampleCounts

/-!
# Sums of floats are never a negative zero

Rounded arithmetic gives a negative zero only if both operands are zeros, so a smoothed sample count
is no negative zero and its sign is never lost in a document.

* `NotNegZero`            a float before packing: a zero is positive, and a finite float has a
                          mantissa and an exponent that fit the format;
* `Settled`               such a float that is no zero;
* `settled_normalize`, `notNegZero_normalize`
                          rounding a whole number of units gives such floats;
* `pack_ne_negZero`       packed, such a float is no negative zero;
* `add_ne_negZero`        a sum whose first operand is no zero;
* `smoothed_ne_negZero`   a smoothed sample count.
-/

namespace EventBuckets

namespace Binary64

open Float.Model Float.Model.UnpackedFloat

/-- the zero with a sign -/
def negZero : Binary64 := ⟨0x8000000000000000⟩

theorem eq_zero_or_negZero {x : Binary64} (h : x.isZero = true) : x = 0 ∨ x = negZero := by
  obtain ⟨bits⟩ := x
  have hm : bits.toNat % 2 ^ 63 = 0 := of_decide_eq_true h
  have hlt := bits.toNat_lt
  have : bits.toNat = 0 ∨ bits.toNat = 2 ^ 63 := by omega
  rcases this with h0 | h1
  · left
    exact congrArg Binary64.mk (UInt64.toNat_inj.mp h0)
  · right
    exact congrArg Binary64.mk (UInt64.toNat_inj.mp h1)

/-! ## rounding -/

theorem mantissa_shiftRight (em : ExtendedMantissa) (n : Nat) :
    (em >>> n).mantissa = em.mantissa / 2 ^ n := by
  show (n.repeat ExtendedMantissa.shiftRightOne em).mantissa = _
  induction n with
  | zero => simp [Nat.repeat]
  | succ n ih =>
    show (n.repeat ExtendedMantissa.shiftRightOne em).mantissa / 2 = _
    rw [ih, Nat.div_div_eq_div_mul, Nat.pow_succ]

theorem le_roundedMantissa (em : ExtendedMantissa) : em.mantissa ≤ em.roundedMantissa := by
  unfold ExtendedMantissa.roundedMantissa Accuracy.roundToNearestEven
  split <;> omega

/-- a float before packing that is no negative zero and fits the format -/
def NotNegZero : UnpackedFloat → Prop
  | .zero s => s = .positive
  | .finite _ m e _ => m < 2 ^ 53 ∧ -1074 ≤ e
  | _ => True

/-- a float before packing that is no zero and, if it is finite, fits the format -/
def Settled : UnpackedFloat → Prop
  | .zero _ => False
  | .finite _ m e _ => m < 2 ^ 53 ∧ -1074 ≤ e
  | _ => True

theorem Settled.notNegZero {u : UnpackedFloat} (h : Settled u) : NotNegZero u := by
  cases u with
  | zero s => exact h.elim
  | finite s m e hm => exact h
  | infinity s => trivial
  | notANumber => trivial

/-- shifting to the target leaves a positive mantissa of at most 53 bits -/
theorem shiftToTarget_bounds {m : Nat} (hm : 0 < m) {e : Int} (he : -1074 ≤ e) (acc : Accuracy)
    (hacc : (ExtendedMantissa.ofMantissaAndAccuracy m acc).mantissa = m) :
    let r := shiftToTargetExponent Format.binary64 m e acc
    0 < r.1.mantissa ∧ r.1.mantissa < 2 ^ 53 ∧ -1074 ≤ r.2 := by
  let target := Format.binary64.targetExponent (totalExponent m e)
  have ht : target = max (m.log2 + 1 + e - 53) (-1074) := rfl
  let k := (target - e).toNat
  show 0 < (ExtendedMantissa.ofMantissaAndAccuracy m acc >>> k).mantissa ∧
    (ExtendedMantissa.ofMantissaAndAccuracy m acc >>> k).mantissa < 2 ^ 53 ∧ -1074 ≤ e + (k : Int)
  rw [mantissa_shiftRight, hacc]
  have hk₁ : k ≤ m.log2 := by omega
  have hk₂ : m.log2 + 1 ≤ k + 53 := by omega
  refine ⟨Nat.div_pos ?_ (Nat.two_pow_pos k), ?_, by omega⟩
  · exact (Nat.pow_le_pow_right (by decide) hk₁).trans (Nat.log2_self_le (Nat.ne_of_gt hm))
  · rw [Nat.div_lt_iff_lt_mul (Nat.two_pow_pos k), ← Nat.pow_add, Nat.add_comm 53]
    exact Nat.lt_log2_self.trans_le (Nat.pow_le_pow_right (by decide) hk₂)

theorem settled_roundWithAccuracy (s : Sign) {m : Nat} (hm : 0 < m) {e : Int} (he : -1074 ≤ e) :
    Settled (roundWithAccuracy Format.binary64 s m e .exact) := by
  obtain ⟨h₁, -, h₂⟩ := shiftToTarget_bounds hm he .exact rfl
  have h₃ := h₁.trans_le (le_roundedMantissa _)
  obtain ⟨h₄, h₅, h₆⟩ := shiftToTarget_bounds h₃ h₂ .exact rfl
  unfold roundWithAccuracy
  simp only
  rw [dif_neg (Nat.ne_of_gt h₄)]
  exact ⟨h₅, h₆⟩

theorem settled_round (s : Sign) {m : Nat} (hm : 0 < m) {e : Int} (he : -1074 ≤ e) :
    Settled (round Format.binary64 s m e) := by
  have ht : -1074 ≤ Format.binary64.targetExponent (totalExponent m e) := le_max_right _ _
  refine settled_roundWithAccuracy s ?_ ?_
  · rw [Nat.shiftLeft_eq]
    exact Nat.mul_pos hm (Nat.two_pow_pos _)
  · omega

/-- rounding a whole number of units of at least the least exponent -/
theorem settled_normalize {m : Int} (hm : m ≠ 0) {e : Int} (he : -1074 ≤ e) (zeroSign : Sign) :
    Settled (UnpackedFloat.normalize Format.binary64 m e zeroSign) := by
  unfold UnpackedFloat.normalize
  split
  next h =>
    have := Int.compare_eq_lt.mp h
    exact settled_round _ (by omega) he
  next h => exact absurd (Int.compare_eq_eq.mp h) hm
  next h =>
    have := Int.compare_eq_gt.mp h
    exact settled_round _ (by omega) he

theorem notNegZero_normalize (m : Int) {e : Int} (he : -1074 ≤ e) :
    NotNegZero (UnpackedFloat.normalize Format.binary64 m e .positive) := by
  by_cases hm : m = 0
  · subst hm
    rfl
  · exact (settled_normalize hm he .positive).notNegZero

/-! ## packing -/

theorem fields_negZero :
    @unpackExponent Format.binary64 negZero.bits.toBitVec = 0 ∧
      @unpackMantissa Format.binary64 negZero.bits.toBitVec = 0 := by
  decide

/-- a packed finite float that fits the format has a field that is not zero -/
theorem fields_pack_finite {s : Sign} {m : Nat} {e : Int} {hm : 0 < m} (h₁ : m < 2 ^ 53)
    (h₂ : -1074 ≤ e) :
    ¬(unpackExponent (pack Format.binary64 (.finite s m e hm)) = 0 ∧
      unpackMantissa (pack Format.binary64 (.finite s m e hm)) = 0) := by
  unfold UnpackedFloat.pack
  simp only
  split
  next =>
    rw [packedInfinity, unpackExponent_packComponents]
    exact fun h => absurd h.1 (by decide)
  next hlt =>
    split
    next hn =>
      rw [unpackExponent_packComponents]
      rintro ⟨h, -⟩
      have h := congrArg BitVec.toNat h
      rw [BitVec.toNat_ofNat] at h
      have hb : (Format.exponentBias Format.binary64 : Int) = 1023 := rfl
      simp only [hb] at h hlt
      have : (e + 1023 + 52).toNat % 2048 = 0 := h
      omega
    next hn =>
      rw [unpackMantissa_packComponents]
      rintro ⟨-, h⟩
      have h := congrArg BitVec.toNat h
      rw [BitVec.toNat_ofNat] at h
      have h : m % 2 ^ 52 = 0 := h
      have hlog : m.log2 ≠ 52 := fun hl => hn (by rw [hl]; rfl)
      have : m.log2 < 52 := by
        have := (Nat.log2_lt (Nat.ne_of_gt hm)).mpr h₁
        omega
      have := (Nat.log2_lt (Nat.ne_of_gt hm)).mp this
      omega

theorem fields_pack {u : UnpackedFloat} (h : Settled u) :
    ¬(unpackExponent (UnpackedFloat.pack Format.binary64 u) = 0 ∧
      unpackMantissa (UnpackedFloat.pack Format.binary64 u) = 0) := by
  cases u with
  | zero s => exact h.elim
  | finite s m e hm => exact fields_pack_finite h.1 h.2
  | infinity s =>
    rw [UnpackedFloat.pack, packedInfinity, unpackExponent_packComponents]
    exact fun h => absurd h.1 (by decide)
  | notANumber =>
    rw [UnpackedFloat.pack, packedNaN, unpackExponent_packComponents]
    exact fun h => absurd h.1 (by decide)

theorem pack_ne_negZero {u : UnpackedFloat} (h : NotNegZero u) :
    UnpackedFloat.pack Format.binary64 u ≠ negZero.bits.toBitVec := by
  intro hz
  have fields := fields_negZero
  rw [← hz] at fields
  cases u with
  | zero s =>
    obtain rfl : s = .positive := h
    exact absurd hz (by decide)
  | finite s m e hm => exact fields_pack (u := .finite s m e hm) h fields
  | infinity s => exact fields_pack (u := .infinity s) trivial fields
  | notANumber => exact fields_pack (u := .notANumber) trivial fields

/-! ## unpacking -/

/-- bits other than those of a zero -/
theorem settled_unpack {b : BitVec Format.binary64.numBits}
    (h : ¬(unpackExponent b = 0 ∧ unpackMantissa b = 0)) :
    Settled (UnpackedFloat.unpack Format.binary64 b) := by
  have hm : (unpackMantissa b).toNat < 2 ^ 52 := (unpackMantissa b).isLt
  have hb : (Format.exponentBias Format.binary64 : Int) = 1023 := rfl
  unfold UnpackedFloat.unpack
  simp only
  split
  next =>
    split
    · trivial
    · trivial
  next =>
    split
    next he =>
      have he' : (unpackExponent b).toNat = 0 := congrArg BitVec.toNat he
      split
      next hz => exact h ⟨he, hz⟩
      next =>
        have hx : -1074 ≤ ((unpackExponent b).toNat : Int) - (1023 + 52) + 1 := by omega
        exact ⟨by omega, hx⟩
    next he =>
      have he' : 0 < (unpackExponent b).toNat := by
        rw [Nat.pos_iff_ne_zero]
        exact fun h => he (BitVec.toNat_inj.mp h)
      have hx : -1074 ≤ ((unpackExponent b).toNat : Int) - (1023 + 52) := by omega
      exact ⟨BitVec.isLt _, hx⟩

theorem fields_of_ne_zero {x : Binary64} (h : x.isZero = false) :
    ¬(@unpackExponent Format.binary64 x.bits.toBitVec = 0 ∧
      @unpackMantissa Format.binary64 x.bits.toBitVec = 0) := by
  rintro ⟨he, hm⟩
  have he : x.bits.toNat / 2 ^ 52 % 2 ^ 11 = 0 := by
    have := congrArg BitVec.toNat he
    simpa [unpackExponent, Nat.shiftRight_eq_div_pow] using this
  have hm : x.bits.toNat % 2 ^ 52 = 0 := by
    have := congrArg BitVec.toNat hm
    simpa [unpackMantissa, Nat.shiftRight_eq_div_pow] using this
  have hx : ¬x.bits.toNat % 2 ^ 63 = 0 := of_decide_eq_false h
  omega

theorem settled_or_zero (b : BitVec Format.binary64.numBits) :
    Settled (UnpackedFloat.unpack Format.binary64 b) ∨
      ∃ s, UnpackedFloat.unpack Format.binary64 b = .zero s := by
  by_cases h : unpackExponent b = 0 ∧ unpackMantissa b = 0
  · right
    refine ⟨Sign.ofBitVec (unpackSign b), ?_⟩
    unfold UnpackedFloat.unpack
    simp only
    rw [h.1, if_neg (by decide)]
    exact (if_pos rfl).trans (dif_pos h.2)
  · exact Or.inl (settled_unpack h)

theorem settled_ofBits {x : Binary64} (h : x.isZero = false) :
    Settled (Float.Model.ofBits x.bits).unpack :=
  settled_unpack (fields_pack (settled_unpack (fields_of_ne_zero h)))

/-! ## sums -/

theorem notNegZero_add {u v : UnpackedFloat} (hu : Settled u)
    (hv : Settled v ∨ ∃ s, v = .zero s) : NotNegZero (UnpackedFloat.add Format.binary64 u v) := by
  rcases hv with hv | ⟨s, rfl⟩
  · cases u <;> cases v <;> try trivial
    case infinity.infinity s t =>
      show NotNegZero (if s == t then .infinity s else .notANumber)
      split <;> trivial
    case finite.finite s m e hm t n f hn =>
      exact notNegZero_normalize _ (le_min hu.2 hv.2)
  · cases u with
    | zero s => exact hu.elim
    | finite s m e hm => exact hu
    | infinity s => trivial
    | notANumber => trivial

/-- a float with the bits of a packed one -/
theorem ne_negZero_of_bits {x : Binary64} {u : UnpackedFloat} (h : NotNegZero u)
    (hx : x.bits = (Float.Model.pack u).toBits) : x ≠ negZero := by
  rintro rfl
  exact pack_ne_negZero h (congrArg UInt64.toBitVec hx).symm

theorem undefinedResult_ne_negZero : undefinedResult ≠ negZero := by decide

/-- a sum whose first operand is no zero is no negative zero -/
theorem add_ne_negZero {x : Binary64} (hx : x.isZero = false) (y : Binary64) :
    x + y ≠ negZero := by
  show lift (· + ·) x y ≠ negZero
  unfold lift
  split
  next =>
    rintro rfl
    exact absurd hx (by decide)
  next =>
    split
    next hy =>
      rintro rfl
      exact absurd hy (by decide)
    next =>
      unfold ofResult
      split
      · exact undefinedResult_ne_negZero
      · exact ne_negZero_of_bits (notNegZero_add (settled_ofBits hx) (settled_or_zero _)) rfl

theorem ofNat_ne_negZero (n : Nat) : ofNat n ≠ negZero :=
  ne_negZero_of_bits (notNegZero_normalize ((UInt64.ofNat n).toNat : Int) (by decide)) rfl

/-- a whole number that is not zero is not rounded to zero -/
theorem isZero_ofNat {n : Nat} (hpos : 0 < n) (hlt : n < 2 ^ 64) : (ofNat n).isZero = false := by
  have hn : ((UInt64.ofNat n).toNat : Int) ≠ 0 := by
    rw [UInt64.toNat_ofNat', Nat.mod_eq_of_lt hlt]
    omega
  have hfields := fields_pack (settled_normalize hn (e := 0) (by decide) .positive)
  have hbits : (ofNat n).bits.toBitVec = UnpackedFloat.pack Format.binary64
      (UnpackedFloat.normalize Format.binary64 (UInt64.ofNat n).toNat 0 .positive) := rfl
  rw [← hbits] at hfields
  rw [Bool.eq_false_iff]
  intro hzero
  rcases eq_zero_or_negZero hzero with h | h
  · rw [h] at hfields
    exact hfields (by decide)
  · exact ofNat_ne_negZero n h

end Binary64

/-- a smoothed sample count is no negative zero -/
theorem smoothed_ne_negZero (weight current : Binary64) (n : Nat) :
    smoothed weight current n ≠ Binary64.negZero := by
  unfold smoothed
  split
  next => exact Binary64.ofNat_ne_negZero n
  next h => exact Binary64.add_ne_negZero (Bool.eq_false_iff.mpr h) _

end EventBuckets
