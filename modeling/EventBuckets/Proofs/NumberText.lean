import EventBuckets.Decimal.Layout
import EventBuckets.Proofs.Nearest
import EventBuckets.State.Document

/-!
# Numbers written and read back

* `readWord_toString`, `readTime_toString`
                        a whole number within its range reads back;
* `readMagnitude_positional`
                        a positional text reads as the float nearest to its decimal;
* `readFloatChars_floatChars`
                        a float that is a number reads back;
* `readFloats_joinFloats`
                        so do floats with commas between, since no text of a float has a comma.
-/

namespace EventBuckets

/-! ## whole numbers -/

theorem digitsValue_eq (cs : List Char) : digitsValue cs = Nat.ofDigitChars 10 cs 0 := rfl

theorem readDigits_toDigits (n : Nat) : readDigits (Nat.toDigits 10 n) = some n := by
  unfold readDigits
  have hall : (Nat.toDigits 10 n).all Char.isDigit = true :=
    List.all_eq_true.mpr fun c hc => Nat.isDigit_of_mem_toDigits (by decide) (by decide) hc
  have hne : (Nat.toDigits 10 n).isEmpty = false :=
    List.isEmpty_eq_false_iff.mpr Nat.toDigits_ne_nil
  rw [hall, hne, digitsValue_eq, Nat.ofDigitChars_ten_toDigits]
  rfl

/-- the digits of a number have no sign -/
theorem toDigits_ne_cons {c : Char} (hc : c.isDigit = false) (n : Nat) (cs : List Char) :
    Nat.toDigits 10 n ≠ c :: cs := by
  intro e
  have := Nat.isDigit_of_mem_toDigits (b := 10) (n := n) (c := c) (by decide) (by decide)
    (e ▸ List.mem_cons_self)
  rw [hc] at this
  cases this

theorem readNat_toString {limit n : Nat} (h : n < limit) :
    readNat limit (toString n) = some n := by
  have hchars : (toString n).toList = Nat.toDigits 10 n := by
    rw [Nat.toString_eq_repr, Nat.toList_repr]
  unfold readNat
  simp only [hchars]
  split
  next cs e => exact (toDigits_ne_cons (by decide) n cs e).elim
  next =>
    rw [readDigits_toDigits]
    exact if_pos h

theorem readWord_toString {n : Nat} (h : n < 2 ^ 64) : readWord (toString n) = some n :=
  readNat_toString h

/-- a time within 64 bits reads back -/
theorem readTime_toString {t : Int} (h₁ : -2 ^ 63 ≤ t) (h₂ : t < 2 ^ 63) :
    readTime (toString t) = some t := by
  cases t with
  | ofNat n =>
    have htext : toString (Int.ofNat n) = toString n := rfl
    have hchars : (toString n).toList = Nat.toDigits 10 n := by
      rw [Nat.toString_eq_repr, Nat.toList_repr]
    rw [htext]
    unfold readTime
    split
    next cs e => exact (toDigits_ne_cons (by decide) n cs (hchars ▸ e)).elim
    next =>
      have hn : n < 0x8000000000000000 := by
        have : ((n : Nat) : Int) < 2 ^ 63 := h₂
        exact_mod_cast this
      rw [readNat_toString hn]
      rfl
  | negSucc n =>
    have hn : n + 1 ≤ 0x8000000000000000 := by
      have : -2 ^ 63 ≤ -((n : Int) + 1) := by
        rw [← Int.negSucc_eq]
        exact h₁
      omega
    have hchars : (toString (Int.negSucc n)).toList = '-' :: Nat.toDigits 10 (n + 1) := by
      show ("-" ++ Nat.repr (n + 1)).toList = _
      rw [String.toList_append, Nat.toList_repr]
      rfl
    unfold readTime
    simp only [hchars, readDigits_toDigits, Option.bind_some, if_pos hn]
    rfl

/-! ## decimals -/

/-- a digit begins no name -/
theorem readUnbounded_cons {c : Char} (hc : c.isDigit = true) (cs : List Char) :
    readUnbounded (c :: cs) = none := by
  have hlower : c.toLower = c := by
    have hrange := Char.isDigit_iff_toNat.mp hc
    have hnine : ('9' : Char).toNat < ('A' : Char).toNat := by decide
    apply dif_neg
    intro h
    have : ('A' : Char).toNat ≤ c.toNat := h.1
    omega
  have hne (d : Char) (ds : List Char) (hd : d.isDigit = false) :
      (c :: cs).map Char.toLower ≠ d :: ds := by
    intro e
    rw [List.map_cons, hlower] at e
    obtain rfl := (List.cons.inj e).1
    rw [hc] at hd
    cases hd
  unfold readUnbounded
  simp only
  rw [if_neg, if_neg]
  · exact hne 'n' ['a', 'n'] (by decide)
  · rintro (h | h)
    · exact hne 'i' ['n', 'f'] (by decide) h
    · exact hne 'i' ['n', 'f', 'i', 'n', 'i', 't', 'y'] (by decide) h

/-- a run of digits up to something else -/
theorem span_digits {as : List Char} (ha : ∀ c ∈ as, c.isDigit = true) (bs : List Char)
    (hb : ∀ c ∈ bs.head?, c.isDigit = false) :
    (as ++ bs).takeWhile Char.isDigit = as ∧ (as ++ bs).dropWhile Char.isDigit = bs := by
  induction as with
  | nil =>
    cases bs with
    | nil => exact ⟨rfl, rfl⟩
    | cons b bs =>
      have := hb b rfl
      simp [this]
  | cons a as ih =>
    obtain ⟨ht, hd⟩ := ih fun c hc => ha c (List.mem_cons_of_mem _ hc)
    have := ha a List.mem_cons_self
    simp [this, ht, hd]

theorem readDecimal_digits {cs : List Char} (h : ∀ c ∈ cs, c.isDigit = true) (hne : cs ≠ []) :
    readDecimal cs = some ⟨digitsValue cs, 0⟩ := by
  obtain ⟨ht, hd⟩ := span_digits h [] (by simp)
  rw [List.append_nil] at ht hd
  have hempty : cs.isEmpty = false := List.isEmpty_eq_false_iff.mpr hne
  unfold readDecimal
  simp [ht, hd, hempty]

theorem readDecimal_point {as bs : List Char} (ha : ∀ c ∈ as, c.isDigit = true)
    (hb : ∀ c ∈ bs, c.isDigit = true) (hne : as ≠ []) :
    readDecimal (as ++ '.' :: bs) = some ⟨digitsValue (as ++ bs), -bs.length⟩ := by
  obtain ⟨ht, hd⟩ := span_digits ha ('.' :: bs) (by simp)
  obtain ⟨ht', hd'⟩ := span_digits hb [] (by simp)
  rw [List.append_nil] at ht' hd'
  have hempty : as.isEmpty = false := List.isEmpty_eq_false_iff.mpr hne
  unfold readDecimal
  simp [ht, hd, ht', hd', hempty]

namespace Decimal

theorem isDigit_of_mem_digitChars {n : Nat} {c : Char} (h : c ∈ digitChars n) :
    c.isDigit = true :=
  Nat.isDigit_of_mem_toDigits (by decide) (by decide) h

theorem isDigit_of_mem_zeros {n : Nat} {c : Char} (h : c ∈ List.replicate n '0') :
    c.isDigit = true := by
  rw [List.eq_of_mem_replicate h]
  rfl

theorem exists_digitChars (n : Nat) : ∃ c cs, digitChars n = c :: cs ∧ c.isDigit = true := by
  obtain ⟨c, cs, hcs⟩ := List.exists_cons_of_ne_nil
    (show digitChars n ≠ [] from Nat.toDigits_ne_nil)
  exact ⟨c, cs, hcs, isDigit_of_mem_digitChars (hcs ▸ List.mem_cons_self)⟩

theorem digitsValue_digitChars (n : Nat) : digitsValue (digitChars n) = n := by
  rw [digitsValue_eq]
  exact Nat.ofDigitChars_ten_toDigits

/-- a text begins with a digit, and reads as a decimal with the same nearest float -/
structure Reads (cs : List Char) (d : Decimal) : Prop where
  starts : ∃ c rest, cs = c :: rest ∧ c.isDigit = true
  value : ∃ e, readDecimal cs = some e ∧ e.bits = d.bits

variable {d : Decimal}

theorem reads_whole (he : 0 ≤ d.exponent) :
    Reads (digitChars d.digits ++ List.replicate d.exponent.toNat '0') d := by
  obtain ⟨c, cs, hcs, hc⟩ := exists_digitChars d.digits
  have hdigits : ∀ x ∈ digitChars d.digits ++ List.replicate d.exponent.toNat '0',
      x.isDigit = true := by
    intro x hx
    rcases List.mem_append.mp hx with hx | hx
    · exact isDigit_of_mem_digitChars hx
    · exact isDigit_of_mem_zeros hx
  refine ⟨⟨c, cs ++ List.replicate d.exponent.toNat '0', by rw [hcs]; rfl, hc⟩, ?_⟩
  refine ⟨_, readDecimal_digits hdigits (by simp [hcs]), ?_⟩
  rw [digitsValue_eq, Nat.ofDigitChars_append, ← digitsValue_eq, digitsValue_digitChars,
    Nat.ofDigitChars_replicate_zero, Nat.mul_comm, bits_mul_pow]
  congr 2
  omega

theorem reads_within {w : Nat} (hw : ((digitChars d.digits).length : Int) + d.exponent = w + 1)
    (he : d.exponent < 0) :
    Reads ((digitChars d.digits).take (w + 1) ++ '.' :: (digitChars d.digits).drop (w + 1)) d := by
  obtain ⟨c, cs, hcs, hc⟩ := exists_digitChars d.digits
  have hlength : ((digitChars d.digits).drop (w + 1)).length = (-d.exponent).toNat := by
    rw [List.length_drop]
    omega
  refine ⟨⟨c, cs.take w ++ '.' :: (digitChars d.digits).drop (w + 1), by rw [hcs]; rfl, hc⟩, ?_⟩
  refine ⟨_, readDecimal_point (fun x hx => isDigit_of_mem_digitChars (List.mem_of_mem_take hx))
    (fun x hx => isDigit_of_mem_digitChars (List.mem_of_mem_drop hx)) (by simp [hcs]), ?_⟩
  rw [List.take_append_drop, digitsValue_digitChars, hlength]
  congr 2
  omega

theorem reads_below {zeros : Nat} (hz : ((digitChars d.digits).length : Int) + d.exponent = -zeros) :
    Reads ('0' :: '.' :: (List.replicate zeros '0' ++ digitChars d.digits)) d := by
  have hlength : (List.replicate zeros '0' ++ digitChars d.digits).length =
      (-d.exponent).toNat := by
    rw [List.length_append, List.length_replicate]
    omega
  have hzeros : ∀ x ∈ List.replicate zeros '0' ++ digitChars d.digits, x.isDigit = true := by
    intro x hx
    rcases List.mem_append.mp hx with hx | hx
    · exact isDigit_of_mem_zeros hx
    · exact isDigit_of_mem_digitChars hx
  have hzero : ∀ x ∈ ['0'], x.isDigit = true := by simp
  refine ⟨⟨'0', _, rfl, rfl⟩, _, readDecimal_point hzero hzeros (by simp), ?_⟩
  have hall : digitsValue (['0'] ++ (List.replicate zeros '0' ++ digitChars d.digits)) =
      d.digits := by
    have hvalue := digitsValue_digitChars d.digits
    rw [digitsValue_eq] at hvalue ⊢
    rw [Nat.ofDigitChars_append, Nat.ofDigitChars_append, Nat.ofDigitChars_replicate_zero]
    simpa [Nat.ofDigitChars_cons] using hvalue
  rw [hall, hlength]
  congr 2
  omega

theorem reads_positional (d : Decimal) : Reads d.positional d := by
  unfold positional
  simp only
  split
  next he => exact reads_whole he
  next he =>
    split
    next hwhole =>
      obtain ⟨w, hw⟩ : ∃ w, (((digitChars d.digits).length : Int) + d.exponent).toNat = w + 1 :=
        ⟨_, (Nat.succ_pred_eq_of_pos (by omega)).symm⟩
      rw [hw]
      exact reads_within (by omega) (Int.not_le.mp he)
    next hwhole => exact reads_below (by omega)

/-- a positional text reads as the float nearest to its decimal -/
theorem readMagnitude_positional (d : Decimal) : readMagnitude d.positional = some d.bits := by
  obtain ⟨⟨c, cs, hcs, hc⟩, e, he, hbits⟩ := reads_positional d
  unfold readMagnitude
  rw [he, hcs, readUnbounded_cons hc]
  exact congrArg some hbits

end Decimal

/-! ## floats -/

namespace Binary64

theorem ofParts_self (x : Binary64) : ofParts x.isNegative x.magnitude = x := by
  obtain ⟨bits⟩ := x
  have hlt := bits.toNat_lt
  unfold ofParts isNegative magnitude
  congr 1
  rw [← UInt64.toNat_inj, UInt64.toNat_ofNat']
  simp only
  by_cases h : 0x8000000000000000 ≤ bits.toNat
  · rw [if_pos (decide_eq_true h)]
    omega
  · rw [if_neg (by simpa using h)]
    omega

end Binary64

/-- a sign is read apart from what follows it -/
theorem readFloatChars_signed (x : Binary64) {c : Char} (cs : List Char) (hc : c ≠ '-' ∧ c ≠ '+')
    (h : readMagnitude (c :: cs) = some x.magnitude) :
    readFloatChars (signed x (c :: cs)) = some x := by
  unfold readFloatChars signed
  by_cases hneg : x.isNegative = true
  · simp only [hneg, if_true, h, Option.map_some]
    rw [← hneg, Binary64.ofParts_self]
  · rw [if_neg hneg]
    split
    next negative rest e =>
      split at e
      next r e' => exact (hc.1 (List.cons.inj e').1).elim
      next r e' => exact (hc.2 (List.cons.inj e').1).elim
      next =>
        obtain ⟨rfl, rfl⟩ := Prod.mk.inj e
        rw [h, Option.map_some, ← Bool.eq_false_iff.mpr hneg, Binary64.ofParts_self]

/-- a float that is a number reads back -/
theorem readFloatChars_floatChars {x : Binary64} (hx : x.isNaN = false) :
    readFloatChars (floatChars x) = some x := by
  unfold floatChars
  rw [hx, if_neg Bool.false_ne_true]
  split
  next hinf =>
    apply readFloatChars_signed x ['n', 'f'] (by decide)
    rw [show x.magnitude = Binary64.infinite from of_decide_eq_true hinf]
    decide +kernel
  next hinf =>
    split
    next hzero =>
      apply readFloatChars_signed x [] (by decide)
      rw [show x.magnitude = 0 from of_decide_eq_true hzero]
      decide +kernel
    next hzero =>
      have hpos : 0 < x.magnitude := by
        have : ¬x.magnitude = 0 := of_decide_eq_false (Bool.eq_false_iff.mpr hzero)
        omega
      have hlt : x.magnitude < Binary64.infinite := by
        have h₁ : ¬x.magnitude = Binary64.infinite :=
          of_decide_eq_false (Bool.eq_false_iff.mpr hinf)
        have h₂ : ¬Binary64.infinite < x.magnitude := of_decide_eq_false hx
        omega
      obtain ⟨⟨c, cs, hcs, hc⟩, -⟩ :=
        Decimal.reads_positional (Decimal.shortest .up x.magnitude)
      have hread := Decimal.readMagnitude_positional (Decimal.shortest .up x.magnitude)
      rw [Decimal.bits_shortest .up hpos hlt] at hread
      rw [hcs] at hread ⊢
      refine readFloatChars_signed x cs ⟨?_, ?_⟩ hread
      · rintro rfl
        exact absurd hc (by decide)
      · rintro rfl
        exact absurd hc (by decide)

/-! ## lists of floats -/

theorem Decimal.mem_positional {d : Decimal} {c : Char} (h : c ∈ d.positional) :
    c.isDigit = true ∨ c = '.' := by
  unfold positional at h
  simp only at h
  split at h
  · rcases List.mem_append.mp h with h | h
    · exact .inl (isDigit_of_mem_digitChars h)
    · exact .inl (isDigit_of_mem_zeros h)
  · split at h
    · rcases List.mem_append.mp h with h | h
      · exact .inl (isDigit_of_mem_digitChars (List.mem_of_mem_take h))
      · rcases List.mem_cons.mp h with h | h
        · exact .inr h
        · exact .inl (isDigit_of_mem_digitChars (List.mem_of_mem_drop h))
    · rcases List.mem_cons.mp h with h | h
      · exact .inl (h ▸ rfl)
      · rcases List.mem_cons.mp h with h | h
        · exact .inr h
        · rcases List.mem_append.mp h with h | h
          · exact .inl (isDigit_of_mem_zeros h)
          · exact .inl (isDigit_of_mem_digitChars h)

theorem mem_signed {x : Binary64} {c : Char} {text : List Char} (h : c ∈ signed x text) :
    c = '-' ∨ c ∈ text := by
  unfold signed at h
  split at h
  · exact List.mem_cons.mp h
  · exact .inr h

/-- the text of a float has no comma -/
theorem comma_not_mem_floatChars (x : Binary64) : ',' ∉ floatChars x := by
  intro h
  unfold floatChars at h
  split at h
  · exact absurd h (by decide)
  · split at h
    · rcases mem_signed h with h | h
      · exact absurd h (by decide)
      · exact absurd h (by decide)
    · split at h
      · rcases mem_signed h with h | h
        · exact absurd h (by decide)
        · exact absurd h (by decide)
      · rcases mem_signed h with h | h
        · exact absurd h (by decide)
        · rcases Decimal.mem_positional h with h | h
          · exact absurd h (by decide)
          · exact absurd h (by decide)

/-- the text of a float that is a number is not empty -/
theorem floatChars_ne_nil {x : Binary64} (hx : x.isNaN = false) : floatChars x ≠ [] := by
  intro h
  have := readFloatChars_floatChars hx
  rw [h] at this
  cases this

theorem splitCommas_cons {c : Char} (hc : c ≠ ',') {cs part : List Char} {parts : List (List Char)}
    (h : splitCommas cs = part :: parts) : splitCommas (c :: cs) = (c :: part) :: parts := by
  rw [splitCommas, h]
  exact hc

theorem splitCommas_append {cs : List Char} (h : ',' ∉ cs) (ds : List Char) :
    splitCommas (cs ++ ',' :: ds) = cs :: splitCommas ds := by
  induction cs with
  | nil => rfl
  | cons c cs ih =>
    obtain ⟨hc, hcs⟩ := not_or.mp (mt List.mem_cons.mpr h)
    exact splitCommas_cons (Ne.symm hc) (ih hcs)

theorem splitCommas_of_not_mem {cs : List Char} (h : ',' ∉ cs) : splitCommas cs = [cs] := by
  induction cs with
  | nil => rfl
  | cons c cs ih =>
    obtain ⟨hc, hcs⟩ := not_or.mp (mt List.mem_cons.mpr h)
    exact splitCommas_cons (Ne.symm hc) (ih hcs)

/-- parts without a comma come apart at the commas between them -/
theorem splitCommas_intercalate {parts : List (List Char)} (hne : parts ≠ [])
    (h : ∀ part ∈ parts, ',' ∉ part) : splitCommas ([','].intercalate parts) = parts := by
  induction parts with
  | nil => exact (hne rfl).elim
  | cons part parts ih =>
    have hpart := h part List.mem_cons_self
    cases parts with
    | nil =>
      rw [List.intercalate_singleton]
      exact splitCommas_of_not_mem hpart
    | cons next rest =>
      have ih := ih (List.cons_ne_nil _ _) fun p hp => h p (List.mem_cons_of_mem _ hp)
      rw [List.intercalate_cons_cons, List.append_assoc, List.singleton_append,
        splitCommas_append hpart, ih]

theorem mapM_readFloatChars {xs : List Binary64} (h : ∀ x ∈ xs, x.isNaN = false) :
    (xs.map floatChars).mapM readFloatChars = some xs := by
  induction xs with
  | nil => rfl
  | cons x xs ih =>
    have hx := readFloatChars_floatChars (h x List.mem_cons_self)
    have hxs := ih fun y hy => h y (List.mem_cons_of_mem _ hy)
    rw [List.map_cons, List.mapM_cons, hx, hxs]
    rfl

/-- floats that are numbers read back -/
theorem readFloats_joinFloats {xs : List Binary64} (h : ∀ x ∈ xs, x.isNaN = false) :
    Node.readFloats (joinFloats xs) = some xs := by
  unfold Node.readFloats joinFloats
  cases xs with
  | nil => rfl
  | cons x xs =>
    have hne : (String.ofList ([','].intercalate ((x :: xs).map floatChars))).isEmpty = false := by
      obtain ⟨c, cs, hc⟩ :=
        List.exists_cons_of_ne_nil (floatChars_ne_nil (h x List.mem_cons_self))
      rw [List.map_cons, hc, List.intercalate_cons_cons_left, String.isEmpty_eq_false_iff]
      intro e
      have := congrArg String.toList e
      rw [String.toList_ofList] at this
      cases this
    rw [hne, if_neg Bool.false_ne_true, String.toList_ofList, splitCommas_intercalate (by simp)]
    · exact mapM_readFloatChars h
    · intro part hpart
      obtain ⟨y, -, rfl⟩ := List.mem_map.mp hpart
      exact comma_not_mem_floatChars y

theorem readFloat_floatText {x : Binary64} (hx : x.isNaN = false) :
    readFloat (floatText x) = some x := by
  unfold readFloat floatText
  rw [String.toList_ofList]
  exact readFloatChars_floatChars hx

end EventBuckets
