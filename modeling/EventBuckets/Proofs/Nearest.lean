import Mathlib
import EventBuckets.Decimal.Shortest

/-!
# The float nearest to a decimal

* `mantissaExponent_eq`   the exponent of the mantissa is a logarithm, so that it depends on the value
                          of a fraction only;
* `nearestBits_mul`       a fraction need not be reduced;
* `Decimal.bits_mul_pow`  zeros may move from the digits to the exponent;
* `Decimal.bits_exact`    the exact value of a float is nearest to that float;
* `Decimal.bits_shortest` the shortest decimal of a float is nearest to that float.
-/

namespace EventBuckets

/-! ## powers -/

theorem scaleDown_eq (num den : Nat) (e : Int) :
    scaleDown num den e = (num * 2 ^ (-e).toNat, den * 2 ^ e.toNat) := rfl

theorem Binary.ratio_eq (b : Binary) :
    b.ratio = (b.mantissa * 2 ^ b.exponent.toNat, 2 ^ (-b.exponent).toNat) := rfl

theorem Decimal.ratio_eq (d : Decimal) :
    d.ratio = (d.digits * 10 ^ d.exponent.toNat, 10 ^ (-d.exponent).toNat) := rfl

theorem Decimal.exact_eq (b : Binary) :
    exact b = if 0 ≤ b.exponent then ⟨b.mantissa * 2 ^ b.exponent.toNat, 0⟩
      else ⟨b.mantissa * 5 ^ (-b.exponent).toNat, b.exponent⟩ := rfl

/-! ## fractions -/

/-- scaling divides a fraction by a power of two -/
theorem ratio_scaleDown (num den : Nat) (e : Int) :
    ((scaleDown num den e).1 : ℚ) / (scaleDown num den e).2 = num / den / 2 ^ e := by
  rw [scaleDown_eq]
  obtain ⟨k, rfl | rfl⟩ := e.eq_nat_or_neg
  · simp [div_div]
  · simp only [neg_neg, Int.toNat_natCast, Int.toNat_neg_natCast, pow_zero, mul_one, zpow_neg,
      zpow_natCast, div_inv_eq_mul]
    push_cast
    ring

theorem scaleDown_pos {den : Nat} (num : Nat) (hd : 0 < den) (e : Int) :
    0 < (scaleDown num den e).2 :=
  Nat.mul_pos hd (Nat.two_pow_pos _)

section
variable {num den : Nat}

/-- the logarithms of both parts leave two values for that of a fraction -/
theorem log_ratio_bounds (hn : 0 < num) (hd : 0 < den) :
    ((num.log2 : Int) - den.log2 - 1) ≤ Int.log 2 ((num : ℚ) / den) ∧
      Int.log 2 ((num : ℚ) / den) < (num.log2 : Int) - den.log2 + 1 := by
  have hq : (0 : ℚ) < (num : ℚ) / den := by positivity
  have hd' : (0 : ℚ) < den := by positivity
  let a := num.log2
  let b := den.log2
  have ha₁ : (2 : ℚ) ^ a ≤ num := by exact_mod_cast Nat.log2_self_le (Nat.ne_of_gt hn)
  have ha₂ : (num : ℚ) < 2 ^ (a + 1) := by exact_mod_cast Nat.lt_log2_self
  have hb₁ : (2 : ℚ) ^ b ≤ den := by exact_mod_cast Nat.log2_self_le (Nat.ne_of_gt hd)
  have hb₂ : (den : ℚ) < 2 ^ (b + 1) := by exact_mod_cast Nat.lt_log2_self
  constructor
  · rw [← Int.zpow_le_iff_le_log one_lt_two hq, le_div_iff₀ hd', Nat.cast_ofNat]
    calc (2 : ℚ) ^ ((a : Int) - b - 1) * den ≤ 2 ^ ((a : Int) - b - 1) * 2 ^ (b + 1) :=
          mul_le_mul_of_nonneg_left hb₂.le (by positivity)
      _ = 2 ^ a := by
          rw [← zpow_natCast 2 (b + 1), ← zpow_add₀ two_ne_zero, ← zpow_natCast]
          congr 1
          push_cast
          ring
      _ ≤ num := ha₁
  · rw [← Int.lt_zpow_iff_log_lt one_lt_two hq, div_lt_iff₀ hd', Nat.cast_ofNat]
    calc (num : ℚ) < 2 ^ (a + 1) := ha₂
      _ = 2 ^ ((a : Int) - b + 1) * 2 ^ b := by
          rw [← zpow_natCast 2 b, ← zpow_add₀ two_ne_zero, ← zpow_natCast]
          congr 1
          push_cast
          ring
      _ ≤ 2 ^ ((a : Int) - b + 1) * den := mul_le_mul_of_nonneg_left hb₁ (by positivity)

/-- at an exponent a fraction has a mantissa that is too short -/
theorem scaleDown_lt_iff (hn : 0 < num) (hd : 0 < den) (e : Int) :
    (scaleDown num den e).1 < mantissas * (scaleDown num den e).2 ↔
      Int.log 2 ((num : ℚ) / den) < e + 52 := by
  have hq : (0 : ℚ) < (num : ℚ) / den := by positivity
  have hpos : (0 : ℚ) < (scaleDown num den e).2 := by exact_mod_cast scaleDown_pos num hd e
  have htop : (2 : ℚ) ^ (e + 52) = (mantissas : Nat) * 2 ^ e := by
    rw [show ((mantissas : Nat) : ℚ) = 2 ^ (52 : Int) by norm_num [mantissas],
      ← zpow_add₀ two_ne_zero, add_comm]
  rw [← Int.lt_zpow_iff_log_lt one_lt_two hq, Nat.cast_ofNat, ← Nat.cast_lt (α := ℚ),
    Nat.cast_mul, ← div_lt_iff₀ hpos, ratio_scaleDown, div_lt_iff₀ (by positivity), htop]

/-- the exponent of the mantissa depends on the value of a fraction only -/
theorem mantissaExponent_eq (hn : 0 < num) (hd : 0 < den) :
    mantissaExponent num den = max (Int.log 2 ((num : ℚ) / den) - 52) leastExponent := by
  obtain ⟨hlow, hhigh⟩ := log_ratio_bounds hn hd
  let guess : Int := (num.log2 : Int) - den.log2 - 52
  have htest := scaleDown_lt_iff hn hd guess
  show max (if (scaleDown num den guess).1 < mantissas * (scaleDown num den guess).2 then guess - 1
    else guess) leastExponent = _
  congr 1
  split
  next h =>
    have := htest.mp h
    omega
  next h =>
    have := mt htest.mpr h
    omega

end

theorem divNearest_mul_mul (tie : Tie) (num den : Nat) {k : Nat} (hk : 0 < k) :
    divNearest tie (num * k) (den * k) = divNearest tie num den := by
  unfold divNearest
  simp only [Nat.mul_div_mul_right num den hk, Nat.mul_mod_mul_right]
  have hlt : den * k < 2 * (num % den * k) ↔ den < 2 * (num % den) := by
    rw [← Nat.mul_assoc, Nat.mul_lt_mul_right hk]
  have heq : den * k = 2 * (num % den * k) ↔ den = 2 * (num % den) := by
    rw [← Nat.mul_assoc, Nat.mul_left_inj (Nat.ne_of_gt hk)]
  simp only [hlt, heq]

/-- the nearest float of a fraction that is not reduced -/
theorem nearestBits_mul {num den k : Nat} (hn : 0 < num) (hd : 0 < den) (hk : 0 < k) :
    nearestBits (num * k) (den * k) = nearestBits num den := by
  have hvalue : ((num * k : Nat) : ℚ) / (den * k : Nat) = (num : ℚ) / den := by
    push_cast
    exact mul_div_mul_right _ _ (by positivity)
  have hexponent : mantissaExponent (num * k) (den * k) = mantissaExponent num den := by
    rw [mantissaExponent_eq (Nat.mul_pos hn hk) (Nat.mul_pos hd hk), mantissaExponent_eq hn hd,
      hvalue]
  unfold nearestBits
  simp only [hexponent]
  have hscale (e : Int) : scaleDown (num * k) (den * k) e =
      ((scaleDown num den e).1 * k, (scaleDown num den e).2 * k) := by
    unfold scaleDown
    simp only [Nat.mul_right_comm]
  simp only [hscale, divNearest_mul_mul _ _ _ hk]

/-! ## decimals -/

namespace Decimal

theorem length_le_iff {n k : Nat} (hk : 0 < k) : length n ≤ k ↔ n < 10 ^ k :=
  Nat.length_toDigits_le_iff (by decide) hk

theorem length_mul_ten {n : Nat} (hn : 0 < n) : length (n * 10) = length n + 1 := by
  unfold length
  rw [show n * 10 = 10 * n + 0 by omega,
    ← Nat.toDigits_append_toDigits (by decide) hn (by decide), List.length_append,
    Nat.toDigits_zero]
  rfl

/-- a zero at the end of the digits is a step of the exponent -/
theorem bits_mul_ten (n : Nat) (e : Int) : bits ⟨n * 10, e⟩ = bits ⟨n, e + 1⟩ := by
  rcases Nat.eq_zero_or_pos n with rfl | hn
  · simp [bits]
  have htop : ((length (n * 10) : Nat) : Int) + e = (length n : Nat) + (e + 1) := by
    rw [length_mul_ten hn]
    push_cast
    ring
  have hratio : nearestBits (ratio ⟨n * 10, e⟩).1 (ratio ⟨n * 10, e⟩).2 =
      nearestBits (ratio ⟨n, e + 1⟩).1 (ratio ⟨n, e + 1⟩).2 := by
    rw [ratio_eq, ratio_eq]
    simp only
    rcases Int.lt_or_le e 0 with he | he
    · -- the power of ten below loses one factor
      have hpos : (e + 1).toNat = 0 := by omega
      have hpos' : e.toNat = 0 := by omega
      have hneg : (-e).toNat = (-(e + 1)).toNat + 1 := by omega
      rw [hpos, hpos', hneg, Nat.pow_succ, Nat.pow_zero, Nat.mul_one, Nat.mul_one]
      exact nearestBits_mul hn (Nat.pow_pos (by decide)) (by decide)
    · have hneg : (-e).toNat = 0 := by omega
      have hneg' : (-(e + 1)).toNat = 0 := by omega
      have hpos : (e + 1).toNat = e.toNat + 1 := by omega
      rw [hneg, hneg', hpos, Nat.pow_succ, Nat.mul_assoc, Nat.mul_comm 10]
  have hdigits : n * 10 = 0 ↔ n = 0 := by omega
  unfold bits
  simp only [htop, hratio, hdigits]

theorem bits_mul_pow (n : Nat) (e : Int) (k : Nat) : bits ⟨n * 10 ^ k, e⟩ = bits ⟨n, e + k⟩ := by
  induction k generalizing e with
  | zero => simp
  | succ k ih =>
    rw [Nat.pow_succ, ← Nat.mul_assoc, bits_mul_ten, ih]
    congr 2
    push_cast
    ring

theorem bits_trim (d : Decimal) : d.trim.bits = d.bits := by
  have go (n : Nat) (d : Decimal) : (trim.go n d).bits = d.bits := by
    induction n generalizing d with
    | zero => rfl
    | succ n ih =>
      unfold trim.go
      split
      next h =>
        rw [ih, ← bits_mul_ten, Nat.div_mul_cancel (Nat.dvd_of_mod_eq_zero h)]
      next => rfl
  exact go _ d

end Decimal

/-! ## floats -/

namespace Binary

/-- the mantissa fits, and is full unless the exponent is the least one -/
structure Fits (b : Binary) : Prop where
  pos : 0 < b.mantissa
  lt : b.mantissa < 2 * mantissas
  least : leastExponent ≤ b.exponent
  greatest : b.exponent ≤ 971
  full : b.mantissa < mantissas → b.exponent = leastExponent

theorem fits_ofBits {m : Nat} (h₁ : 0 < m) (h₂ : m < Binary64.infinite) : (ofBits m).Fits := by
  unfold ofBits
  unfold mantissas leastExponent Binary64.infinite at *
  split
  next h =>
    refine ⟨h₁, ?_, le_rfl, ?_, fun _ => rfl⟩
    · simp only [mantissas]
      omega
    · simp only
      omega
  next h =>
    refine ⟨by simp only; omega, ?_, ?_, ?_, ?_⟩
    · simp only [mantissas]
      omega
    · simp only [leastExponent]
      omega
    · simp only
      omega
    · intro hlt
      simp only [mantissas] at hlt
      omega

/-- the place of a float, from its mantissa and exponent -/
theorem place_ofBits (m : Nat) :
    ((ofBits m).exponent - leastExponent).toNat * mantissas + (ofBits m).mantissa = m := by
  unfold ofBits
  unfold mantissas leastExponent
  split
  next h => simp
  next h =>
    simp only
    omega

variable {b : Binary}

theorem Fits.ratio_pos (h : b.Fits) : 0 < b.ratio.1 ∧ 0 < b.ratio.2 :=
  ⟨Nat.mul_pos h.pos (Nat.two_pow_pos _), Nat.two_pow_pos _⟩

/-- the exponent of the mantissa of a float is its own one -/
theorem mantissaExponent_ratio (h : b.Fits) : mantissaExponent b.ratio.1 b.ratio.2 = b.exponent := by
  have hvalue : ((b.ratio.1 : Nat) : ℚ) / (b.ratio.2 : Nat) = b.mantissa * 2 ^ b.exponent := by
    unfold ratio
    obtain ⟨k, hk | hk⟩ := b.exponent.eq_nat_or_neg
    · simp [hk]
    · simp [hk, div_eq_mul_inv]
  have hpos : (0 : ℚ) < b.mantissa * 2 ^ b.exponent := by
    have : (0 : ℚ) < b.mantissa := by exact_mod_cast h.pos
    positivity
  have hhigh : Int.log 2 ((b.mantissa : ℚ) * 2 ^ b.exponent) < b.exponent + 53 := by
    rw [← Int.lt_zpow_iff_log_lt one_lt_two hpos, Nat.cast_ofNat, add_comm,
      zpow_add₀ two_ne_zero]
    refine mul_lt_mul_of_pos_right ?_ (by positivity)
    have := h.lt
    unfold mantissas at this
    exact_mod_cast this
  rw [mantissaExponent_eq h.ratio_pos.1 h.ratio_pos.2, hvalue]
  have hleast := h.least
  by_cases hfull : b.mantissa < mantissas
  · have hsmall : Int.log 2 ((b.mantissa : ℚ) * 2 ^ b.exponent) < b.exponent + 52 := by
      rw [← Int.lt_zpow_iff_log_lt one_lt_two hpos, Nat.cast_ofNat, add_comm,
        zpow_add₀ two_ne_zero]
      refine mul_lt_mul_of_pos_right ?_ (by positivity)
      unfold mantissas at hfull
      exact_mod_cast hfull
    have := h.full hfull
    omega
  · have hlow : b.exponent + 52 ≤ Int.log 2 ((b.mantissa : ℚ) * 2 ^ b.exponent) := by
      rw [← Int.zpow_le_iff_le_log one_lt_two hpos, Nat.cast_ofNat, add_comm,
        zpow_add₀ two_ne_zero]
      refine mul_le_mul_of_nonneg_right ?_ (by positivity)
      unfold mantissas at hfull
      exact_mod_cast Nat.not_lt.mp hfull
    omega

/-- a float is nearest to its own value -/
theorem nearestBits_ratio {m : Nat} (h₁ : 0 < m) (h₂ : m < Binary64.infinite) :
    nearestBits (ofBits m).ratio.1 (ofBits m).ratio.2 = m := by
  have h := fits_ofBits h₁ h₂
  have hplace := place_ofBits m
  generalize ofBits m = b at h hplace
  unfold nearestBits
  simp only [mantissaExponent_ratio h]
  have hscale : scaleDown b.ratio.1 b.ratio.2 b.exponent =
      (b.mantissa * (2 ^ b.exponent.toNat * 2 ^ (-b.exponent).toNat),
        2 ^ b.exponent.toNat * 2 ^ (-b.exponent).toNat) := by
    rw [scaleDown_eq, ratio_eq]
    simp only [Nat.mul_assoc, Nat.mul_comm (2 ^ (-b.exponent).toNat)]
  have hpos : 0 < 2 ^ b.exponent.toNat * 2 ^ (-b.exponent).toNat :=
    Nat.mul_pos (Nat.two_pow_pos _) (Nat.two_pow_pos _)
  simp only [hscale, divNearest_mul _ _ hpos, hplace]
  exact Nat.min_eq_left h₂.le

end Binary

namespace Decimal

variable {b : Binary}

/-- powers of two against powers of ten -/
theorem two_pow_le {k q r s t : Nat} (hk : k ≤ 93 * q + r) (hr : 2 ^ r ≤ 10 ^ s)
    (ht : 28 * q + s ≤ t) : 2 ^ k ≤ 10 ^ t := by
  calc 2 ^ k ≤ 2 ^ (93 * q + r) := Nat.pow_le_pow_right (by decide) hk
    _ = (2 ^ 93) ^ q * 2 ^ r := by rw [Nat.pow_add, Nat.pow_mul]
    _ ≤ (10 ^ 28) ^ q * 10 ^ s := Nat.mul_le_mul (Nat.pow_le_pow_left (by decide) q) hr
    _ = 10 ^ (28 * q + s) := by rw [Nat.pow_add, Nat.pow_mul]
    _ ≤ 10 ^ t := Nat.pow_le_pow_right (by decide) ht

theorem mul_lt_ten_pow {m n t : Nat} (hm : m < 2 ^ 53) (hn : n ≤ 10 ^ t) :
    m * n < 10 ^ (16 + t) := by
  have hm : m < 10 ^ 16 := hm.trans (by decide)
  rw [Nat.pow_add]
  exact (Nat.mul_le_mul_left m hn).trans_lt
    (Nat.mul_lt_mul_of_pos_right hm (Nat.pow_pos (by decide)))

/-- the first digit of the exact value of a float is near enough to the point -/
theorem top_exact_le (h : b.Fits) : (length (exact b).digits : Int) + (exact b).exponent ≤ 310 := by
  have hlt : b.mantissa < 2 ^ 53 := h.lt
  rw [exact_eq]
  split
  next he =>
    have hpow : 2 ^ b.exponent.toNat ≤ 10 ^ 294 :=
      two_pow_le (q := 10) (r := 41) (s := 13) (by have := h.greatest; omega) (by decide) (by decide)
    have := (length_le_iff (by omega)).mpr (mul_lt_ten_pow hlt hpow)
    simp only
    omega
  next he =>
    have hpow : 5 ^ (-b.exponent).toNat ≤ 10 ^ (-b.exponent).toNat :=
      Nat.pow_le_pow_left (by decide) _
    have := (length_le_iff (by omega)).mpr (mul_lt_ten_pow hlt hpow)
    simp only
    omega

/-- a float has a 2 for each 5 of its denominator, and at most 1074 of them -/
theorem pow_ten_le_pow_five {k : Nat} (h₁ : 331 ≤ k) (h₂ : k ≤ 1074) : 10 ^ (k - 331) ≤ 5 ^ k := by
  have htwo : 2 ^ k ≤ 10 ^ 331 :=
    two_pow_le (q := 11) (r := 51) (s := 16) (by omega) (by decide) (by decide)
  have hsplit : 10 ^ (k - 331) * 10 ^ 331 = 5 ^ k * 2 ^ k := by
    rw [← Nat.pow_add, ← Nat.mul_pow, Nat.sub_add_cancel h₁]
  have hpos := (Nat.two_pow_pos k).trans_le htwo
  generalize 10 ^ 331 = c at htwo hsplit hpos
  refine Nat.le_of_mul_le_mul_right ?_ hpos
  rw [hsplit]
  exact Nat.mul_le_mul_left _ htwo

theorem le_top_exact (h : b.Fits) :
    -330 ≤ (length (exact b).digits : Int) + (exact b).exponent := by
  rw [exact_eq]
  split
  next he =>
    simp only
    omega
  next he =>
    simp only
    by_contra hfar
    have hk : (-b.exponent).toNat ≤ 1074 := by
      have := h.least
      unfold leastExponent at this
      omega
    have he' : b.exponent = -((-b.exponent).toNat : Int) := by omega
    rw [he'] at hfar
    generalize (-b.exponent).toNat = k at hk hfar
    have hlen : 0 < length (b.mantissa * 5 ^ k) := Nat.length_toDigits_pos
    have hfew : length (b.mantissa * 5 ^ k) ≤ k - 331 := by
      simp only [neg_neg, Int.toNat_natCast] at hfar
      omega
    have hdigits := (length_le_iff (by omega)).mp hfew
    have hpow := pow_ten_le_pow_five (k := k) (by omega) hk
    have hmant : 5 ^ k ≤ b.mantissa * 5 ^ k := Nat.le_mul_of_pos_left _ h.pos
    omega

/-- the float nearest to the exact value of a float is that float -/
theorem bits_exact {m : Nat} (h₁ : 0 < m) (h₂ : m < Binary64.infinite) :
    (exact (Binary.ofBits m)).bits = m := by
  have h := Binary.fits_ofBits h₁ h₂
  have hnear := Binary.nearestBits_ratio h₁ h₂
  generalize Binary.ofBits m = b at h hnear
  have hratio : nearestBits (exact b).ratio.1 (exact b).ratio.2 = m := by
    rw [← hnear]
    rw [exact_eq]
    split
    next he =>
      have hneg : (-b.exponent).toNat = 0 := by omega
      simp [ratio_eq, Binary.ratio_eq, hneg]
    next he =>
      have hpos : b.exponent.toNat = 0 := by omega
      have hten : (10 : Nat) ^ (-b.exponent).toNat = 2 ^ (-b.exponent).toNat * 5 ^ (-b.exponent).toNat := by
        rw [← Nat.mul_pow]
      rw [ratio_eq, Binary.ratio_eq]
      simp only [hpos, Nat.pow_zero, Nat.mul_one, hten]
      exact nearestBits_mul h.pos (Nat.two_pow_pos _) (Nat.pow_pos (by decide))
  have hdigits : (exact b).digits ≠ 0 := by
    rw [exact_eq]
    split
    · exact Nat.ne_of_gt (Nat.mul_pos h.pos (Nat.two_pow_pos _))
    · exact Nat.ne_of_gt (Nat.mul_pos h.pos (Nat.pow_pos (by decide)))
  have hhigh := top_exact_le h
  have hlow := le_top_exact h
  unfold bits
  simp only
  rw [if_neg (by omega), if_neg (by omega), hratio]

/-- the shortest decimal of a float is nearest to that float -/
theorem bits_shortest (tie : Tie) {m : Nat} (h₁ : 0 < m) (h₂ : m < Binary64.infinite) :
    (shortest tie m).bits = m := by
  unfold shortest
  simp only
  rw [bits_trim]
  cases hhit : List.findSome? _ (List.range 17) with
  | none => exact bits_exact h₁ h₂
  | some d =>
    obtain ⟨n, -, hn⟩ := List.exists_of_findSome?_eq_some hhit
    have := List.find?_some hn
    simpa using this

end Decimal

end EventBuckets
