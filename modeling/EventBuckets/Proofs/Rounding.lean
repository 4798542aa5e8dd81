import EventBuckets.Proofs.Binary64

/-!
# Rounding passes no float

What an operation on floats rounds to does not lie beyond a float that the exact result does not
reach.  That bounds an operation by its operands, without a word on which neighbour is the nearer.

* `rational`            the rational number that a float before packing stands for;
* `Representable`       the magnitudes of the format, if exponents had no upper bound;
* `Rounds q r`          no such magnitude is between `q` and `r`;
* `Canonical`           a finite float before packing in the one form that fits the format;
* `roundWithAccuracy_spec`, `round_spec`, `normalize_spec`
                        what rounding gives is canonical, and rounds the exact value;
* `repacked`, `Canonical.repacked`
                        packing keeps a canonical float, unless it is too large.
-/

set_option linter.unusedSectionVars false

namespace EventBuckets

namespace Binary64

open Float.Model Float.Model.UnpackedFloat

/-! ## what a float stands for -/

/-- the rational number that a float before packing stands for; one that is not finite stands for
none, and has a zero -/
def rational : UnpackedFloat → ℚ
  | .finite s m e _ => s.apply m * 2 ^ e
  | _ => 0

/-- a mantissa that fits, at an exponent that is not below the least one -/
def Representable (b : ℚ) : Prop := ∃ (m : ℕ) (e : ℤ), m < 2 ^ 53 ∧ -1074 ≤ e ∧ b = m * 2 ^ e

/-- no representable magnitude, or its negative, is between a number and what it is rounded to -/
def Rounds (q r : ℚ) : Prop := ∀ b, Representable b → (q ≤ b → r ≤ b) ∧ (-b ≤ q → -b ≤ r)

/-- a finite float before packing whose exponent is the least one at which its mantissa fits -/
inductive Canonical : UnpackedFloat → Prop
  | zero (s : Sign) : Canonical (.zero s)
  | finite (s : Sign) {m : ℕ} {e : ℤ} {hm : 0 < m} (hhigh : m < 2 ^ 53) (hleast : -1074 ≤ e)
      (hform : 2 ^ 52 ≤ m ∨ e = -1074) : Canonical (.finite s m e hm)

theorem representable_zero : Representable 0 := ⟨0, 0, by decide, by decide, by simp⟩

theorem representable_two_pow (n : ℕ) : Representable (2 ^ n) :=
  ⟨1, n, by decide, by omega, by simp⟩

theorem abs_rational (s : Sign) {m : ℕ} {e : ℤ} (hm : 0 < m) :
    |rational (.finite s m e hm)| = m * 2 ^ e := by
  have hpow : (0 : ℚ) ≤ 2 ^ e := by positivity
  cases s <;> simp [rational, Sign.apply, abs_mul, abs_of_nonneg hpow]

theorem Canonical.representable {u : UnpackedFloat} (h : Canonical u) :
    Representable |rational u| := by
  cases h with
  | zero s => simpa [rational] using representable_zero
  | @finite s m e hm hhigh hleast => exact ⟨m, e, hhigh, hleast, abs_rational s hm⟩

namespace Rounds
variable {q r b : ℚ}

theorem of_eq (h : q = r) : Rounds q r := h ▸ fun _ _ => ⟨id, id⟩

theorem upper (h : Rounds q r) (hb : Representable b) (hq : q ≤ b) : r ≤ b := (h b hb).1 hq

theorem lower (h : Rounds q r) (hb : Representable b) (hq : -b ≤ q) : -b ≤ r := (h b hb).2 hq

theorem nonneg (h : Rounds q r) (hq : 0 ≤ q) : 0 ≤ r := by
  simpa using h.lower representable_zero (by simpa using hq)

theorem nonpos (h : Rounds q r) (hq : q ≤ 0) : r ≤ 0 := h.upper representable_zero hq

theorem magnitude_le (h : Rounds q r) (hb : Representable b) (hq : |q| ≤ b) : |r| ≤ b := by
  obtain ⟨hlow, hhigh⟩ := abs_le.mp hq
  exact abs_le.mpr ⟨h.lower hb hlow, h.upper hb hhigh⟩

theorem neg (h : Rounds q r) : Rounds (-q) (-r) := by
  intro b hb
  refine ⟨fun hq => ?_, fun hq => ?_⟩
  · exact neg_le.mp (h.lower hb (neg_le.mpr hq))
  · exact neg_le_neg (h.upper hb (neg_le_neg_iff.mp hq))

/-- for numbers that are not negative it takes one direction -/
theorem of_nonneg (hr : 0 ≤ r) (h : ∀ b, Representable b → q ≤ b → r ≤ b) : Rounds q r := by
  intro b hb
  refine ⟨h b hb, fun _ => ?_⟩
  obtain ⟨m, e, -, -, rfl⟩ := hb
  have : (0 : ℚ) ≤ m * 2 ^ e := by positivity
  linarith

end Rounds

/-! ## shifting -/

/-- a bit was lost on the way only if the mantissa has become less -/
theorem mantissa_mul_lt {m : ℕ} (n : ℕ)
    (h : let em := ExtendedMantissa.ofMantissaAndAccuracy m .exact >>> n
      (em.roundBit || em.stickyBit) = true) :
    (ExtendedMantissa.ofMantissaAndAccuracy m .exact >>> n).mantissa * 2 ^ n < m := by
  induction n with
  | zero => cases h
  | succ n ih =>
    let em := ExtendedMantissa.ofMantissaAndAccuracy m .exact >>> n
    have hle : em.mantissa * 2 ^ n ≤ m := by
      rw [mantissa_shiftRight]
      exact Nat.div_mul_le_self m (2 ^ n)
    have h : ((em.mantissa % 2 != 0) || (em.roundBit || em.stickyBit)) = true := h
    show em.mantissa / 2 * 2 ^ (n + 1) < m
    rw [Nat.pow_succ', ← Nat.mul_assoc]
    rcases Bool.or_eq_true_iff.mp h with hodd | hlost
    · have hodd : em.mantissa % 2 ≠ 0 := by simpa using hodd
      have : em.mantissa / 2 * 2 < em.mantissa := by omega
      exact (Nat.mul_lt_mul_of_pos_right this (Nat.two_pow_pos n)).trans_le hle
    · exact (Nat.mul_le_mul_right _ (Nat.div_mul_le_self em.mantissa 2)).trans_lt (ih hlost)

/-- a rounded mantissa is less than one unit above what was shifted -/
theorem roundedMantissa_mul_lt (m n : ℕ) :
    (ExtendedMantissa.ofMantissaAndAccuracy m .exact >>> n).roundedMantissa * 2 ^ n < m + 2 ^ n := by
  have hlost := @mantissa_mul_lt m n
  have hle : (ExtendedMantissa.ofMantissaAndAccuracy m .exact >>> n).mantissa * 2 ^ n ≤ m := by
    rw [mantissa_shiftRight]
    exact Nat.div_mul_le_self m (2 ^ n)
  generalize ExtendedMantissa.ofMantissaAndAccuracy m .exact >>> n = em at hlost hle
  obtain ⟨mantissa, roundBit, stickyBit⟩ := em
  have hkept : mantissa * 2 ^ n < m + 2 ^ n :=
    (show mantissa * 2 ^ n ≤ m from hle).trans_lt (Nat.lt_add_of_pos_right (Nat.two_pow_pos n))
  have hup (hbit : (roundBit || stickyBit) = true) {i : ℕ} (hi : i ≤ 1) :
      (mantissa + i) * 2 ^ n < m + 2 ^ n := by
    have hlt : mantissa * 2 ^ n < m := hlost hbit
    have hunit := Nat.mul_le_mul_right (2 ^ n) hi
    rw [Nat.add_mul]
    omega
  cases roundBit with
  | false =>
    cases stickyBit with
    | false => exact hkept
    | true => exact hkept
  | true =>
    cases stickyBit with
    | false => exact hup rfl (by omega)
    | true => exact hup rfl le_rfl

/-- the number of places by which a mantissa is shifted to fit -/
def places (m : ℕ) (e : ℤ) : ℕ :=
  (Format.binary64.targetExponent (totalExponent m e) - e).toNat

/-- a mantissa with a bit to spare, or at a small exponent, is shifted into the one form that fits -/
theorem places_spec {m : ℕ} {e : ℤ} (h : 2 ^ 52 ≤ m ∨ e ≤ -1074) :
    m / 2 ^ places m e < 2 ^ 53 ∧ -1074 ≤ e + places m e ∧
      (2 ^ 52 ≤ m / 2 ^ places m e ∨ e + places m e = -1074) := by
  have hk : (places m e : ℤ) = max (max (m.log2 + 1 + e - 53) (-1074) - e) 0 := Int.toNat_eq_max _
  generalize places m e = k at hk
  have hlog : 2 ^ 52 ≤ m → 52 ≤ m.log2 := fun h =>
    (Nat.le_log2 (by omega)).mpr h
  refine ⟨?_, by omega, ?_⟩
  · rw [Nat.div_lt_iff_lt_mul (Nat.two_pow_pos k), ← Nat.pow_add]
    exact Nat.lt_log2_self.trans_le (Nat.pow_le_pow_right (by decide) (by omega))
  · by_cases hleast : e + k = -1074
    · exact .inr hleast
    · refine .inl ((Nat.le_div_iff_mul_le (Nat.two_pow_pos k)).mpr ?_)
      have hm : m ≠ 0 := by
        rintro rfl
        have : (0 : ℕ).log2 = 0 := by decide
        omega
      rw [← Nat.pow_add]
      exact (Nat.pow_le_pow_right (by decide) (by omega)).trans (Nat.log2_self_le hm)

/-! ## rounding -/

theorem roundWithAccuracy_eq (s : Sign) (m : ℕ) (e : ℤ) :
    let n := (ExtendedMantissa.ofMantissaAndAccuracy m .exact >>> places m e).roundedMantissa
    let e' := e + places m e
    roundWithAccuracy Format.binary64 s m e .exact =
      if h : n / 2 ^ places n e' = 0 then .zero s
      else .finite s (n / 2 ^ places n e') (e' + places n e') (Nat.pos_of_ne_zero h) := by
  intro n e'
  have hlast : (ExtendedMantissa.ofMantissaAndAccuracy n .exact >>> places n e').mantissa =
      n / 2 ^ places n e' := mantissa_shiftRight _ _
  simp only [← hlast]
  rfl

/-- in the first place a mantissa is rounded up to a representable bound at most, since the bound is
a whole number of units at the new exponent; in the second it becomes no greater -/
theorem rounded_le {m : ℕ} {e : ℤ} (h : 2 ^ 52 ≤ m ∨ e ≤ -1074) {b : ℚ} (hb : Representable b)
    (hle : (m : ℚ) * 2 ^ e ≤ b) :
    ((ExtendedMantissa.ofMantissaAndAccuracy m .exact >>> places m e).roundedMantissa : ℚ) *
      2 ^ (e + places m e) ≤ b := by
  obtain ⟨-, hleast, hform⟩ := places_spec h
  have hround := roundedMantissa_mul_lt m (places m e)
  generalize (ExtendedMantissa.ofMantissaAndAccuracy m .exact >>> places m e).roundedMantissa = n
    at hround
  generalize places m e = k at *
  obtain ⟨c, j, hc, hj, rfl⟩ := hb
  have hunit : (2 : ℚ) ^ (e + k) = 2 ^ k * 2 ^ e := by
    rw [zpow_add₀ two_ne_zero, zpow_natCast, mul_comm]
  have hpow : (0 : ℚ) < 2 ^ e := by positivity
  by_cases hje : e + k ≤ j
  · obtain ⟨d, hd⟩ := Int.le.dest hje
    have hbound : (c : ℚ) * 2 ^ j = (c * 2 ^ d * 2 ^ k : ℕ) * 2 ^ e := by
      rw [← hd, zpow_add₀ two_ne_zero, hunit, zpow_natCast]
      push_cast
      ring
    have hm : m ≤ c * 2 ^ d * 2 ^ k := by
      rw [hbound] at hle
      exact_mod_cast le_of_mul_le_mul_right hle hpow
    have hn : n ≤ c * 2 ^ d := by
      have : n * 2 ^ k < (c * 2 ^ d + 1) * 2 ^ k := by
        rw [Nat.add_mul]
        omega
      exact Nat.lt_succ_iff.mp (Nat.lt_of_mul_lt_mul_right this)
    calc (n : ℚ) * 2 ^ (e + k) ≤ (c * 2 ^ d : ℕ) * 2 ^ (e + k) := by gcongr
      _ = c * 2 ^ j := by
        rw [hbound, hunit]
        push_cast
        ring
  · -- a bound at a lesser exponent is below the least mantissa of this one
    have hm : 2 ^ 52 * 2 ^ k ≤ m :=
      (Nat.le_div_iff_mul_le (Nat.two_pow_pos k)).mp (hform.resolve_right (by omega))
    have hlt : (c : ℚ) * 2 ^ j < m * 2 ^ e := by
      calc (c : ℚ) * 2 ^ j < 2 ^ 53 * 2 ^ j := by
            gcongr
            exact_mod_cast hc
        _ = 2 ^ 52 * 2 ^ (j + 1) := by
            rw [zpow_add₀ two_ne_zero]
            ring
        _ ≤ 2 ^ 52 * 2 ^ (e + k) :=
            mul_le_mul_of_nonneg_left (zpow_le_zpow_right₀ one_le_two (by omega)) (by positivity)
        _ = (2 ^ 52 * 2 ^ k : ℕ) * 2 ^ e := by
            rw [hunit]
            push_cast
            ring
        _ ≤ m * 2 ^ e := by
            gcongr
    exact absurd hle hlt.not_ge

theorem rounds_apply (s : Sign) {m n : ℕ} {e f : ℤ} (h : Rounds (m * 2 ^ e) (n * 2 ^ f)) :
    Rounds ((s.apply m : ℤ) * 2 ^ e) ((s.apply n : ℤ) * 2 ^ f) := by
  cases s with
  | positive => simpa [Sign.apply] using h
  | negative => simpa [Sign.apply] using h.neg

theorem roundWithAccuracy_spec (s : Sign) {m : ℕ} {e : ℤ} (h : 2 ^ 52 ≤ m ∨ e ≤ -1074) :
    Canonical (roundWithAccuracy Format.binary64 s m e .exact) ∧
      Rounds ((s.apply m : ℤ) * 2 ^ e)
        (rational (roundWithAccuracy Format.binary64 s m e .exact)) := by
  rw [roundWithAccuracy_eq]
  obtain ⟨-, hleast, hform⟩ := places_spec h
  have hround := fun b => @rounded_le m e h b
  have hlarge := le_roundedMantissa
    (ExtendedMantissa.ofMantissaAndAccuracy m .exact >>> places m e)
  rw [mantissa_shiftRight] at hlarge
  generalize (ExtendedMantissa.ofMantissaAndAccuracy m .exact >>> places m e).roundedMantissa = n
    at hround hlarge ⊢
  generalize e + places m e = e' at hleast hform hround ⊢
  have hspec : 2 ^ 52 ≤ n ∨ e' ≤ -1074 := hform.imp (fun h => h.trans hlarge) le_of_eq
  obtain ⟨hlt, hleast', hform'⟩ := places_spec hspec
  have hdrop : ((n / 2 ^ places n e' : ℕ) : ℚ) * 2 ^ (e' + places n e') ≤ n * 2 ^ e' := by
    rw [zpow_add₀ two_ne_zero, zpow_natCast, mul_comm (2 ^ e' : ℚ), ← mul_assoc]
    gcongr
    exact_mod_cast Nat.div_mul_le_self n (2 ^ places n e')
  have hrounds : Rounds (m * 2 ^ e) ((n / 2 ^ places n e' : ℕ) * 2 ^ (e' + places n e')) :=
    .of_nonneg (by positivity) fun b hb hle => hdrop.trans (hround b hb hle)
  have hvalue := rounds_apply s hrounds
  split
  next hzero =>
    refine ⟨.zero s, ?_⟩
    rw [hzero] at hvalue
    cases s <;> simpa [Sign.apply, rational] using hvalue
  next => exact ⟨.finite s hlt hleast' hform', hvalue⟩

theorem round_spec (s : Sign) {m : ℕ} (hm : 0 < m) {e : ℤ} :
    Canonical (round Format.binary64 s m e) ∧
      Rounds ((s.apply m : ℤ) * 2 ^ e) (rational (round Format.binary64 s m e)) := by
  let target := Format.binary64.targetExponent (totalExponent m e)
  have ht : target = max (m.log2 + 1 + e - 53) (-1074) := rfl
  let k := (e - target).toNat
  show Canonical (roundWithAccuracy Format.binary64 s (m <<< k) (e - k) .exact) ∧
    Rounds _ (rational (roundWithAccuracy Format.binary64 s (m <<< k) (e - k) .exact))
  have hk : (k : ℤ) = max (e - target) 0 := Int.toNat_eq_max _
  rw [Nat.shiftLeft_eq]
  have hvalue : ((s.apply m : ℤ) : ℚ) * 2 ^ e = (s.apply (m * 2 ^ k : ℕ) : ℤ) * 2 ^ (e - k) := by
    rw [zpow_sub₀ two_ne_zero, zpow_natCast]
    cases s <;> simp [Sign.apply] <;> field_simp
  rw [hvalue]
  refine roundWithAccuracy_spec s ?_
  by_cases hleast : target = -1074
  · exact .inr (by omega)
  · refine .inl ?_
    calc 2 ^ 52 ≤ 2 ^ (m.log2 + k) := Nat.pow_le_pow_right (by decide) (by omega)
      _ = 2 ^ m.log2 * 2 ^ k := Nat.pow_add ..
      _ ≤ m * 2 ^ k := Nat.mul_le_mul_right _ (Nat.log2_self_le (Nat.ne_of_gt hm))

theorem normalize_spec (m : ℤ) (e : ℤ) (zeroSign : Sign) :
    Canonical (UnpackedFloat.normalize Format.binary64 m e zeroSign) ∧
      Rounds (m * 2 ^ e) (rational (UnpackedFloat.normalize Format.binary64 m e zeroSign)) := by
  unfold UnpackedFloat.normalize
  split
  next h =>
    have hneg := Int.compare_eq_lt.mp h
    have hspec := round_spec .negative (m := (-m).toNat) (e := e) (by omega)
    have hm : Sign.negative.apply ((-m).toNat : ℤ) = m := by
      show -((-m).toNat : ℤ) = m
      omega
    rwa [hm] at hspec
  next h =>
    obtain rfl := Int.compare_eq_eq.mp h
    exact ⟨.zero zeroSign, .of_eq (by simp [rational])⟩
  next h =>
    have hpos := Int.compare_eq_gt.mp h
    have hspec := round_spec .positive (m := m.toNat) (e := e) (by omega)
    have hm : Sign.positive.apply (m.toNat : ℤ) = m := by
      show (m.toNat : ℤ) = m
      omega
    rwa [hm] at hspec

/-! ## packing -/

/-- what a float packs to, unpacked again -/
def repacked (u : UnpackedFloat) : UnpackedFloat :=
  UnpackedFloat.unpack Format.binary64 (UnpackedFloat.pack Format.binary64 u)

theorem repacked_notANumber : repacked .notANumber = .notANumber := unpack_packedNaN

theorem repacked_infinity (s : Sign) : repacked (.infinity s) = .infinity s := by
  simp [repacked, UnpackedFloat.unpack, UnpackedFloat.pack, packedInfinity]

/-- a mantissa of 53 bits; packing drops its top bit, which unpacking puts back -/
theorem repacked_normal (s : Sign) {m : ℕ} {e : ℤ} (hm : 0 < m) (hlow : 2 ^ 52 ≤ m)
    (hhigh : m < 2 ^ 53) (he : -1074 ≤ e) (he' : e ≤ 971) :
    repacked (.finite s m e hm) = .finite s m e hm := by
  have hlog : m.log2 = 52 := (Nat.log2_eq_iff (Nat.ne_of_gt hm)).mpr ⟨hlow, hhigh⟩
  have hb : (Format.exponentBias Format.binary64 : ℤ) = 1023 := rfl
  let biased := (e + 1023 + 52).toNat
  have hexponent : (BitVec.ofNat 11 biased).toNat = biased := Nat.mod_eq_of_lt (by omega)
  have hmantissa : (1#1 ++ BitVec.ofNat 52 m).toNat = m := by
    rw [BitVec.toNat_append, ← Nat.shiftLeft_add_eq_or_of_lt (BitVec.isLt _)]
    show 1 <<< 52 + m % 2 ^ 52 = m
    rw [Nat.shiftLeft_eq]
    omega
  have hpack : UnpackedFloat.pack Format.binary64 (.finite s m e hm) =
      packComponents Format.binary64 s (BitVec.ofNat 11 biased) (BitVec.ofNat 52 m) := by
    unfold UnpackedFloat.pack
    simp only [hb]
    rw [if_neg, if_pos]
    · rfl
    · rw [hlog]
      rfl
    · show ¬2 ^ 11 ≤ biased + 1
      omega
  unfold repacked
  rw [hpack]
  unfold UnpackedFloat.unpack
  simp only [unpackExponent_packComponents, unpackMantissa_packComponents,
    unpackSign_packComponents, Sign.ofBitVec_toBitVec, hb]
  rw [if_neg, if_neg]
  · simp only [hexponent, hmantissa]
    congr
    omega
  · intro h
    have := congrArg BitVec.toNat h
    rw [hexponent] at this
    have : biased = 0 := this
    omega
  · intro h
    have := congrArg BitVec.toNat h
    rw [hexponent] at this
    have : biased = 2047 := this
    omega

/-- a mantissa of fewer bits, which is at the least exponent -/
theorem repacked_subnormal (s : Sign) {m : ℕ} (hm : 0 < m) (hhigh : m < 2 ^ 52) :
    repacked (.finite s m (-1074) hm) = .finite s m (-1074) hm := by
  have hlog : m.log2 < 52 := (Nat.log2_lt (Nat.ne_of_gt hm)).mpr hhigh
  have hmantissa : (BitVec.ofNat 52 m).toNat = m := Nat.mod_eq_of_lt hhigh
  have hpack : UnpackedFloat.pack Format.binary64 (.finite s m (-1074) hm) =
      packComponents Format.binary64 s 0#11 (BitVec.ofNat 52 m) := by
    unfold UnpackedFloat.pack
    simp only
    rw [if_neg (by decide), if_neg]
    show ¬m.log2 + 1 = 53
    omega
  unfold repacked
  rw [hpack]
  unfold UnpackedFloat.unpack
  simp only [unpackExponent_packComponents, unpackMantissa_packComponents,
    unpackSign_packComponents, Sign.ofBitVec_toBitVec]
  rw [if_neg (by decide), if_pos trivial, dif_neg]
  · simp only [hmantissa]
    rfl
  · intro h
    have := congrArg BitVec.toNat h
    rw [hmantissa] at this
    exact Nat.ne_of_gt hm this

/-- a mantissa of 53 bits at an exponent that has no place in the format -/
theorem repacked_large (s : Sign) {m : ℕ} {e : ℤ} (hm : 0 < m) (hlow : 2 ^ 52 ≤ m) (he : 971 < e) :
    2 ^ 1023 < |rational (.finite s m e hm)| ∧ repacked (.finite s m e hm) = .infinity s := by
  constructor
  · rw [abs_rational]
    have hlow : (2 : ℚ) ^ 52 ≤ m := by exact_mod_cast hlow
    have hpow : (2 : ℚ) ^ (972 : ℕ) ≤ 2 ^ e := by
      rw [← zpow_natCast]
      exact zpow_le_zpow_right₀ one_le_two (by omega)
    calc (2 : ℚ) ^ 1023 < 2 ^ (52 + 972) := pow_lt_pow_right₀ one_lt_two (by decide)
      _ = 2 ^ 52 * 2 ^ 972 := pow_add ..
      _ ≤ m * (2 : ℚ) ^ e := mul_le_mul hlow hpow (by positivity) (by positivity)
  · have hpack : UnpackedFloat.pack Format.binary64 (.finite s m e hm) =
        packedInfinity Format.binary64 s := by
      have hb : (Format.exponentBias Format.binary64 : ℤ) = 1023 := rfl
      unfold UnpackedFloat.pack
      simp only [hb]
      rw [if_pos]
      show 2 ^ 11 ≤ (e + 1023 + 52).toNat + 1
      omega
    unfold repacked
    rw [hpack]
    exact repacked_infinity s

/-- packing keeps a canonical float, or makes an infinity of a large one -/
theorem Canonical.repacked {u : UnpackedFloat} (h : Canonical u) :
    repacked u = u ∨ 2 ^ 1023 < |rational u| ∧ ∃ s, repacked u = .infinity s := by
  cases h with
  | zero s => exact .inl unpack_packedZero
  | @finite s m e hm hhigh hleast hform =>
    rcases le_or_gt e 971 with he | he
    · left
      by_cases hlow : 2 ^ 52 ≤ m
      · exact repacked_normal s hm hlow hhigh hleast he
      · obtain rfl := hform.resolve_left hlow
        exact repacked_subnormal s hm (Nat.lt_of_not_le hlow)
    · obtain ⟨hlarge, hinfinity⟩ := repacked_large s hm (hform.resolve_right (by omega)) he
      exact .inr ⟨hlarge, s, hinfinity⟩

end Binary64

end EventBuckets
