import WasmFloat.Hexadecimal.Printer
import WasmFloat.Proofs.DigitText
import WasmFloat.Proofs.HexadecimalLiterals

namespace WasmFloat

namespace Hexadecimal

theorem normalizingShift_bounds {fraction : UInt64} (hne : fraction ≠ 0)
    (hlt : fraction.toNat < 2 ^ 52) :
    1 ≤ normalizingShift fraction ∧ normalizingShift fraction ≤ 52 ∧
      2 ^ 52 ≤ fraction.toNat * 2 ^ normalizingShift fraction ∧
      fraction.toNat * 2 ^ normalizingShift fraction < 2 ^ 53 := by
  obtain ⟨hlow, hhigh, hzeros⟩ := leadingZeros_bounds hne
  have hmany : 12 ≤ leadingZeros fraction := by
    by_contra hfew
    have hpow : 2 ^ leadingZeros fraction ≤ 2 ^ 11 :=
      Nat.pow_le_pow_right (by decide) (by omega)
    have hover := Nat.mul_le_mul_left fraction.toNat hpow
    omega
  have hsplit : fraction.toNat * 2 ^ leadingZeros fraction =
      fraction.toNat * 2 ^ normalizingShift fraction * 2 ^ 11 := by
    rw [Nat.mul_assoc, ← Nat.pow_add, normalizingShift, Nat.sub_add_cancel (by omega)]
  rw [hsplit] at hlow hhigh
  refine ⟨?_, ?_, by omega, by omega⟩
  · rw [normalizingShift]
    omega
  · rw [normalizingShift]
    omega

theorem toNat_field (magnitude : UInt64) :
    (magnitude >>> 52).toNat = magnitude.toNat / 2 ^ 52 :=
  toNat_shiftRight magnitude (show 52 < 64 by decide)

theorem field_eq_zero_iff (magnitude : UInt64) :
    magnitude >>> 52 = 0 ↔ magnitude.toNat < 2 ^ 52 := by
  rw [← UInt64.toNat_inj, toNat_field, show (0 : UInt64).toNat = 0 from rfl]
  omega

/-- Below the normal numbers the fraction is all of the magnitude. -/
theorem and_fractionMask_of_lt {magnitude : UInt64} (hlt : magnitude.toNat < 2 ^ 52) :
    magnitude &&& Binary64.fractionMask = magnitude := by
  rw [← UInt64.toNat_inj, Binary64.toNat_and_fractionMask, Nat.mod_eq_of_lt hlt]

/-- The fraction bits and the exponent, behind a leading one, make up the
magnitude. -/
structure Normalizes (magnitude fraction : UInt64) (exponent : ℤ) : Prop where
  fraction_lt : fraction.toNat < 2 ^ 52
  units : (Format.binary64.units magnitude.toNat : ℚ) =
    (2 ^ 52 + fraction.toNat : ℕ) * 2 ^ (exponent + 1022)

theorem normalizes_subnormal {magnitude : UInt64} (hne : magnitude ≠ 0)
    (hlt : magnitude.toNat < 2 ^ 52) :
    Normalizes magnitude
      ((magnitude <<< UInt64.ofNat (normalizingShift magnitude)) &&&
        Binary64.fractionMask)
      (-1022 - (normalizingShift magnitude : ℤ)) := by
  obtain ⟨_, hshift, hlow, hhigh⟩ := normalizingShift_bounds hne hlt
  have hword := toNat_shiftLeft (show normalizingShift magnitude < 64 by omega)
    (show magnitude.toNat * 2 ^ normalizingShift magnitude < 2 ^ 64 by omega)
  have hfraction : 2 ^ 52 + ((magnitude <<< UInt64.ofNat (normalizingShift magnitude)) &&&
      Binary64.fractionMask).toNat =
        magnitude.toNat * 2 ^ normalizingShift magnitude := by
    rw [Binary64.toNat_and_fractionMask, hword]
    omega
  have hcancel : (normalizingShift magnitude : ℤ) +
      (-1022 - (normalizingShift magnitude : ℤ) + 1022) = 0 := by ring
  refine ⟨by omega, ?_⟩
  rw [Format.units_of_lt hlt, hfraction, Nat.cast_mul, Nat.cast_pow, Nat.cast_ofNat,
    mul_assoc, ← zpow_natCast, ← zpow_add₀ (by decide), hcancel, zpow_zero, mul_one]

theorem normalizes_normal {magnitude : UInt64} (hge : 2 ^ 52 ≤ magnitude.toNat) :
    Normalizes magnitude (magnitude &&& Binary64.fractionMask)
      ((magnitude >>> 52).toNat - 1023) := by
  have hmod := Nat.mod_lt magnitude.toNat (Nat.two_pow_pos 52)
  refine ⟨by rw [Binary64.toNat_and_fractionMask]; exact hmod, ?_⟩
  obtain ⟨excess, hexcess⟩ : ∃ excess, magnitude.toNat / 2 ^ 52 = excess + 1 :=
    ⟨magnitude.toNat / 2 ^ 52 - 1, by omega⟩
  have hhidden : Format.binary64.hiddenBit = 2 ^ 52 := rfl
  have hparts : magnitude.toNat = excess * Format.binary64.hiddenBit +
      (2 ^ 52 + magnitude.toNat % 2 ^ 52) := by
    rw [hhidden]
    omega
  have hunits : Format.binary64.units magnitude.toNat =
      (2 ^ 52 + magnitude.toNat % 2 ^ 52) * 2 ^ excess := by
    rw [← Format.binary64.units_add excess (Or.inr (by omega)) (by omega), ← hparts]
  rw [hunits, Binary64.toNat_and_fractionMask, toNat_field, hexcess, Nat.cast_mul, Nat.cast_pow,
    Nat.cast_ofNat, Nat.cast_succ,
    show (excess : ℤ) + 1 - 1023 + 1022 = excess by ring, zpow_natCast]

theorem normalizes_parts {magnitude : UInt64} (hne : magnitude ≠ 0) :
    Normalizes magnitude (parts magnitude).1 (parts magnitude).2 := by
  unfold parts
  simp only
  split
  · rename_i hzero
    rw [field_eq_zero_iff] at hzero
    rw [and_fractionMask_of_lt hzero]
    exact normalizes_subnormal hne hzero
  · rename_i hnormal
    rw [field_eq_zero_iff, not_lt] at hnormal
    exact normalizes_normal hnormal

def pointed (digits : List ℕ) : List Char :=
  if digits = [] then [] else '.' :: Digits.spell digits

def marked (exponent : Exponent) : List Char :=
  'p' :: (if exponent.negative then '-' else '+') :: Digits.spell exponent.digits

/-- No more digits than the fraction bits have, and no zero at their end. -/
structure NormalFraction (digits : List ℕ) : Prop where
  length_le : digits.length ≤ 13
  digit_lt : ∀ digit ∈ digits, digit < 16
  last_ne : digits.getLast? ≠ some 0

/-- No zero in front of other digits, and no minus before zero itself. -/
structure NormalExponent (exponent : Exponent) : Prop where
  ne_nil : exponent.digits ≠ []
  digit_lt : ∀ digit ∈ exponent.digits, digit < 10
  eq_of_head : exponent.digits.head? = some 0 → exponent = ⟨false, [0]⟩

/-- A text with its numeral in normal form: zero, or a leading one, digits in lower case
after the point, and the exponent of the one. -/
inductive IsNormal : List Char → Numeral → Prop
  | zero : IsNormal ['0', 'x', '0', 'p', '+', '0'] ⟨[0], [], ⟨false, [0]⟩⟩
  | one {digits : List ℕ} {exponent : Exponent} :
      NormalFraction digits → NormalExponent exponent →
        IsNormal ('0' :: 'x' :: '1' :: (pointed digits ++ marked exponent))
          ⟨[1], digits, exponent⟩

theorem NormalFraction.written {digits : List ℕ} (h : NormalFraction digits) :
    Numeral.FractionWritten Digits.Run 16 (pointed digits) digits := by
  unfold pointed
  split
  · rename_i hnil
    rw [hnil]
    exact Numeral.FractionWritten.absent
  · rename_i hne
    exact Numeral.FractionWritten.digits (Digits.run_spell hne h.digit_lt)

theorem exponentWritten_marked {exponent : Exponent} (hne : exponent.digits ≠ [])
    (hdigits : ∀ digit ∈ exponent.digits, digit < 10) :
    Numeral.ExponentWritten Digits.Run NumeralStyle.hexadecimal.marker (marked exponent)
      exponent := by
  have hrun := Digits.run_spell hne hdigits
  obtain ⟨negative, digits⟩ := exponent
  apply Numeral.ExponentWritten.marked rfl
  cases negative with
  | false => exact Exponent.Written.plus hrun
  | true => exact Exponent.Written.minus hrun

theorem NormalExponent.written {exponent : Exponent} (h : NormalExponent exponent) :
    Numeral.ExponentWritten Digits.Run NumeralStyle.hexadecimal.marker (marked exponent)
      exponent :=
  exponentWritten_marked h.ne_nil h.digit_lt

theorem IsNormal.written {text : List Char} {numeral : Numeral} (h : IsNormal text numeral) :
    (∃ body, text = '0' :: 'x' :: body ∧
      Numeral.Written Digits.Run .hexadecimal body numeral) ∧
      numeral.integer.length + numeral.fraction.length ≤ 14 := by
  have hdigit : ∀ digit < 16, Digits.Run 16 [Nat.digitChar digit] [digit] :=
    fun digit hlt => Digits.Run.single ⟨hlt, Or.inl rfl⟩
  cases h with
  | zero =>
      have hexponent : NormalExponent ⟨false, [0]⟩ :=
        ⟨List.cons_ne_nil _ _, by decide, fun _ => rfl⟩
      exact ⟨⟨_, rfl, ['0'], [], marked ⟨false, [0]⟩, rfl, hdigit 0 (by decide),
        Numeral.FractionWritten.absent, hexponent.written⟩, by simp⟩
  | one hfraction hexponent =>
      refine ⟨⟨_, rfl, ['1'], _, _, rfl, hdigit 1 (by decide), hfraction.written,
        hexponent.written⟩, ?_⟩
      exact Nat.add_le_add_left hfraction.length_le 1

theorem fractionText_normal {fraction : UInt64} (h : fraction.toNat < 2 ^ 52) :
    ∃ digits, NormalFraction digits ∧ fractionText fraction = pointed digits ∧
      (Digits.toNat 16 ([1] ++ digits) : ℚ) * 16 ^ (-(digits.length : ℤ)) =
        (2 ^ 52 + fraction.toNat : ℕ) * 2 ^ (-52 : ℤ) := by
  unfold fractionText
  split
  · rename_i hzero
    refine ⟨[], ⟨by simp, by simp, by simp⟩, rfl, ?_⟩
    rw [hzero]
    norm_num [Digits.toNat]
  · rename_i hne
    obtain ⟨digits, htext, hlength, hdigits, hvalue⟩ :=
      Digits.exists_paddedText (show 1 < 16 by decide) (show 0 < 13 by decide)
        (show fraction.toNat < 16 ^ 13 from h)
    obtain ⟨front, count, rfl, hdrop, hlast⟩ := Digits.dropTrailingZeros_spell digits
    rw [List.length_append, List.length_replicate] at hlength
    have hfront : front ≠ [] := by
      rintro rfl
      rw [List.nil_append, Digits.toNat_zeros] at hvalue
      exact hne (UInt64.toNat_inj.mp hvalue.symm)
    refine ⟨front, ⟨by omega, fun digit hmem => hdigits digit (List.mem_append_left _ hmem),
      hlast⟩, ?_, ?_⟩
    · rw [htext, hdrop, pointed, if_neg hfront]
    · have hzeros := Digits.toNat_append_zeros (show 0 < 16 by decide) ([1] ++ front)
        front.length count
      rw [hlength, List.append_assoc, Digits.toNat_append, hvalue, List.length_append,
        List.length_replicate, hlength] at hzeros
      rw [Nat.cast_ofNat] at hzeros
      rw [← hzeros]
      norm_num [Digits.toNat]

theorem exponentText_normal (n : ℤ) :
    ∃ exponent, NormalExponent exponent ∧ exponentText n = marked exponent ∧
      exponent.toInt = n := by
  obtain ⟨digits, htext, hne, hdigits, hvalue⟩ :=
    Digits.exists_text (show 1 < 10 by decide) n.natAbs
  -- Only zero begins with a zero.
  have hhead : digits.head? = some 0 → n = 0 ∧ digits = [0] := by
    intro hzero
    have hn : n.natAbs = 0 := by
      by_contra hpos
      exact Digits.head?_of_text htext hdigits hvalue hpos hzero
    obtain ⟨rest, rfl⟩ := List.head?_eq_some_iff.mp hzero
    rw [hn] at htext
    have hlength := congrArg List.length htext
    rw [Digits.spell, List.length_map] at hlength
    rw [List.length_eq_zero_iff.mp (Nat.succ.inj hlength.symm)]
    exact ⟨Int.natAbs_eq_zero.mp hn, rfl⟩
  refine ⟨⟨decide (n < 0), digits⟩, ⟨hne, hdigits, fun hzero => ?_⟩, ?_, ?_⟩
  · obtain ⟨rfl, rfl⟩ := hhead hzero
    rfl
  · rw [exponentText, htext, marked]
    simp only [decide_eq_true_eq]
  · rw [Exponent.toInt, Exponent.signed, hvalue]
    simp only [decide_eq_true_eq]
    split <;> omega

theorem text_isNormal (magnitude : UInt64) :
    ∃ numeral, IsNormal (text magnitude) numeral ∧
      numeral.value 16 2 = Format.binary64.units magnitude.toNat / 2 ^ 1074 := by
  unfold text
  split
  · rename_i hzero
    refine ⟨_, IsNormal.zero, ?_⟩
    rw [hzero, Numeral.value, Numeral.coefficient]
    simp [Digits.toNat]
  · rename_i hne
    obtain ⟨hfraction, hunits⟩ := normalizes_parts hne
    obtain ⟨digits, hdigits, hfractionText, hmantissa⟩ := fractionText_normal hfraction
    obtain ⟨exponent, hexponent, hexponentText, hvalue⟩ :=
      exponentText_normal (parts magnitude).2
    refine ⟨⟨[1], digits, exponent⟩, ?_, ?_⟩
    · simp only [hfractionText, hexponentText]
      exact IsNormal.one hdigits hexponent
    · have hpos : (2 : ℚ) ^ 1074 ≠ 0 := pow_ne_zero _ (by decide)
      rw [eq_div_iff hpos, hunits, Numeral.value, Numeral.coefficient, hvalue]
      simp only [Nat.cast_ofNat]
      rw [hmantissa, mul_assoc, mul_assoc, ← zpow_natCast, ← zpow_add₀ (by decide),
        ← zpow_add₀ (by decide)]
      congr 2
      ring

theorem text_written (magnitude : UInt64) :
    ∃ body numeral, text magnitude = '0' :: 'x' :: body ∧
      Numeral.Written Digits.Run .hexadecimal body numeral ∧
      numeral.integer.length + numeral.fraction.length ≤ 14 ∧
      numeral.value 16 2 = Format.binary64.units magnitude.toNat / 2 ^ 1074 := by
  obtain ⟨numeral, hnormal, hvalue⟩ := text_isNormal magnitude
  obtain ⟨⟨body, htext, hwritten⟩, hlength⟩ := hnormal.written
  exact ⟨body, numeral, htext, hwritten, hlength, hvalue⟩

end Hexadecimal

end WasmFloat
