import WasmFloat.Proofs.RoundTrip

namespace WasmFloat

namespace Digits

theorem length_le_of_toNat_le {radix : ℕ} (hradix : 1 < radix) {digits others : List ℕ}
    (hhead : digits.head? ≠ some 0) (hothers : ∀ digit ∈ others, digit < radix)
    (hle : toNat radix digits ≤ toNat radix others) : digits.length ≤ others.length := by
  cases digits with
  | nil => exact Nat.zero_le _
  | cons digit digits =>
      have hne : digit ≠ 0 := fun hzero => hhead (congrArg some hzero)
      have hpow : radix ^ digits.length < radix ^ others.length :=
        ((pow_le_toNat hne digits).trans hle).trans_lt (toNat_lt hothers)
      exact (Nat.pow_lt_pow_iff_right hradix).mp hpow

end Digits

theorem Exponent.eq_of_signed_eq {exponent other : Exponent} {size otherSize : ℕ}
    (hpos : 0 < size) (hotherPos : 0 < otherSize)
    (heq : exponent.signed size = other.signed otherSize) :
    exponent.negative = other.negative ∧ size = otherSize := by
  rw [signed, signed] at heq
  cases hsign : exponent.negative with
  | false =>
      rw [hsign, if_neg Bool.false_ne_true] at heq
      split at heq
      · omega
      · rename_i hother
        exact ⟨(Bool.eq_false_of_not_eq_true hother).symm, Int.ofNat.inj heq⟩
  | true =>
      rw [hsign, if_pos rfl] at heq
      split at heq
      · rename_i hother
        exact ⟨hother.symm, Int.ofNat.inj (neg_injective heq)⟩
      · omega

namespace Hexadecimal

/-- The leading bit of `q` stands for two to this power. -/
def IsLeading (exponent : ℤ) (q : ℚ) : Prop := 2 ^ exponent ≤ q ∧ q < 2 ^ (exponent + 1)

theorem IsLeading.le {exponent other : ℤ} {q : ℚ} (h : IsLeading exponent q)
    (hother : IsLeading other q) : exponent ≤ other := by
  have hlt : (2 : ℚ) ^ exponent < 2 ^ (other + 1) := h.1.trans_lt hother.2
  exact Int.lt_add_one_iff.mp ((zpow_lt_zpow_iff_right₀ (by decide)).mp hlt)

theorem IsLeading.unique {exponent other : ℤ} {q : ℚ} (h : IsLeading exponent q)
    (hother : IsLeading other q) : other = exponent :=
  le_antisymm (hother.le h) (h.le hother)

theorem IsLeading.pos {exponent : ℤ} {q : ℚ} (h : IsLeading exponent q) : 0 < q :=
  (zpow_pos (by decide) exponent).trans_le h.1

def mantissa (digits : List ℕ) : ℚ :=
  Digits.toNat 16 (1 :: digits) * 16 ^ (-(digits.length : ℤ))

theorem value_one (digits : List ℕ) (exponent : Exponent) :
    Numeral.value ⟨[1], digits, exponent⟩ 16 2 = mantissa digits * 2 ^ exponent.toInt := rfl

theorem mantissa_eq_iff (digits others : List ℕ) :
    mantissa digits = mantissa others ↔
      Digits.toNat 16 (1 :: digits) * 16 ^ others.length =
        Digits.toNat 16 (1 :: others) * 16 ^ digits.length := by
  rw [mantissa, mantissa, zpow_neg, zpow_neg, zpow_natCast, zpow_natCast, ← div_eq_mul_inv,
    ← div_eq_mul_inv, div_eq_div_iff (by positivity) (by positivity)]
  exact_mod_cast Iff.rfl

theorem NormalFraction.isLeading {digits : List ℕ} (h : NormalFraction digits)
    (exponent : ℤ) : IsLeading exponent (mantissa digits * 2 ^ exponent) := by
  have hlt := Digits.toNat_lt h.digit_lt
  have hpow : (0 : ℚ) < 16 ^ digits.length := by positivity
  have hscale : (0 : ℚ) < 2 ^ exponent := zpow_pos (by decide) _
  have hmantissa : mantissa digits = 1 + Digits.toNat 16 digits / 16 ^ digits.length := by
    rw [mantissa, Digits.toNat_cons, Nat.one_mul, zpow_neg, zpow_natCast, ← div_eq_mul_inv,
      Nat.cast_add, Nat.cast_pow, Nat.cast_ofNat, add_div, div_self hpow.ne']
  have hfraction : (Digits.toNat 16 digits : ℚ) / 16 ^ digits.length < 1 := by
    rw [div_lt_one hpow]
    exact_mod_cast hlt
  have hnonneg : (0 : ℚ) ≤ Digits.toNat 16 digits / 16 ^ digits.length := by positivity
  constructor
  · exact le_mul_of_one_le_left hscale.le (by linarith)
  · rw [zpow_add_one₀ (by decide), mul_comm]
    exact mul_lt_mul_of_pos_left (by linarith) hscale

/-- A digit other than zero at the end cannot be spared. -/
theorem NormalFraction.length_le_of_eq {digits others : List ℕ} (h : NormalFraction digits)
    (heq : mantissa digits = mantissa others) : digits.length ≤ others.length := by
  rw [mantissa_eq_iff] at heq
  by_contra hlonger
  obtain ⟨count, hcount⟩ := Nat.exists_eq_add_of_lt (Nat.lt_of_not_le hlonger)
  have hdvd : 16 ∣ Digits.toNat 16 (1 :: digits) := by
    refine ⟨Digits.toNat 16 (1 :: others) * 16 ^ count, ?_⟩
    apply Nat.eq_of_mul_eq_mul_right (Nat.pow_pos (n := others.length) (show 0 < 16 by decide))
    rw [heq, hcount]
    ring
  rcases List.eq_nil_or_concat' digits with rfl | ⟨front, digit, rfl⟩
  · exact nomatch hcount
  · have hne : digit ≠ 0 := by
      rintro rfl
      exact h.last_ne List.getLast?_concat
    have hlt := h.digit_lt digit (List.mem_append_right _ List.mem_cons_self)
    exact Digits.not_dvd_toNat hne hlt (1 :: front) hdvd

theorem NormalFraction.unique {digits others : List ℕ} (h : NormalFraction digits)
    (hothers : NormalFraction others) (heq : mantissa digits = mantissa others) :
    others = digits := by
  have hlength := le_antisymm (hothers.length_le_of_eq heq.symm) (h.length_le_of_eq heq)
  have hpos : 0 < 16 ^ digits.length := Nat.pow_pos (by decide)
  rw [mantissa_eq_iff, hlength] at heq
  have hvalue := Nat.eq_of_mul_eq_mul_right hpos heq
  rw [Digits.toNat_cons, Digits.toNat_cons, hlength] at hvalue
  exact Digits.eq_of_toNat_eq h.digit_lt hothers.digit_lt hlength
    (Nat.add_left_cancel hvalue).symm

theorem NormalExponent.size_pos {exponent : Exponent} (h : NormalExponent exponent)
    (hhead : exponent.digits.head? ≠ some 0) : 0 < Digits.toNat 10 exponent.digits := by
  obtain ⟨digit, digits, hdigits⟩ := List.exists_cons_of_ne_nil h.ne_nil
  rw [hdigits] at hhead ⊢
  have hne : digit ≠ 0 := fun hzero => hhead (congrArg some hzero)
  exact (Nat.pow_pos (by decide)).trans_le (Digits.pow_le_toNat hne digits)

theorem NormalExponent.head?_eq_iff {exponent : Exponent} (h : NormalExponent exponent) :
    exponent.digits.head? = some 0 ↔ exponent.toInt = 0 := by
  constructor
  · intro hhead
    rw [h.eq_of_head hhead]
    rfl
  · intro hzero
    by_contra hhead
    have hpos := h.size_pos hhead
    rw [Exponent.toInt, Exponent.signed] at hzero
    split at hzero <;> omega

theorem NormalExponent.unique {exponent other : Exponent} (h : NormalExponent exponent)
    (hother : NormalExponent other) (heq : other.toInt = exponent.toInt) :
    other = exponent := by
  by_cases hhead : exponent.digits.head? = some 0
  · have hotherHead := hother.head?_eq_iff.mpr (heq.trans (h.head?_eq_iff.mp hhead))
    rw [h.eq_of_head hhead, hother.eq_of_head hotherHead]
  have hotherHead : other.digits.head? ≠ some 0 := by
    rwa [Ne, hother.head?_eq_iff, heq, ← h.head?_eq_iff]
  have hpos := h.size_pos hhead
  have hotherPos := hother.size_pos hotherHead
  obtain ⟨hsign, hsize⟩ := Exponent.eq_of_signed_eq hotherPos hpos heq
  have hlength := le_antisymm
    (Digits.length_le_of_toNat_le (by decide) hotherHead h.digit_lt hsize.le)
    (Digits.length_le_of_toNat_le (by decide) hhead hother.digit_lt hsize.ge)
  have hdigits := Digits.eq_of_toNat_eq h.digit_lt hother.digit_lt hlength hsize
  obtain ⟨negative, digits⟩ := exponent
  obtain ⟨otherNegative, otherDigits⟩ := other
  exact congrArg₂ Exponent.mk hsign hdigits

theorem value_zero : Numeral.value ⟨[0], [], ⟨false, [0]⟩⟩ 16 2 = 0 := by
  rw [Numeral.value, Numeral.coefficient]
  simp [Digits.toNat]

theorem IsNormal.value_eq_zero_iff {text : List Char} {numeral : Numeral}
    (h : IsNormal text numeral) :
    numeral.value 16 2 = 0 ↔ text = ['0', 'x', '0', 'p', '+', '0'] := by
  cases h with
  | zero => exact iff_of_true value_zero rfl
  | one hfraction _ => exact iff_of_false (hfraction.isLeading _).pos.ne' (by simp)

theorem IsNormal.isLeading {text : List Char} {numeral : Numeral}
    (h : IsNormal text numeral) (hne : numeral.value 16 2 ≠ 0) :
    numeral.integer = [1] ∧ IsLeading numeral.exponent.toInt (numeral.value 16 2) := by
  cases h with
  | zero => exact absurd value_zero hne
  | one hfraction _ => exact ⟨rfl, hfraction.isLeading _⟩

/-- The leading bit fixes the exponent, and the exponent the digits. -/
theorem IsNormal.unique {text other : List Char} {numeral otherNumeral : Numeral}
    (h : IsNormal text numeral) (hother : IsNormal other otherNumeral)
    (heq : otherNumeral.value 16 2 = numeral.value 16 2) : other = text := by
  by_cases hzero : numeral.value 16 2 = 0
  · rw [h.value_eq_zero_iff.mp hzero, hother.value_eq_zero_iff.mp (heq.trans hzero)]
  cases h with
  | zero => exact absurd value_zero hzero
  | @one digits exponent hfraction hexponent =>
      cases hother with
      | zero => exact absurd (heq.symm.trans value_zero) hzero
      | @one others otherExponent hothers hotherExponent =>
          rw [value_one, value_one] at heq
          have hleading := hothers.isLeading otherExponent.toInt
          rw [heq] at hleading
          have hsame := (hfraction.isLeading exponent.toInt).unique hleading
          rw [hsame] at heq
          have hmantissa := mul_right_cancel₀ (zpow_pos (by decide) _).ne' heq
          rw [hfraction.unique hothers hmantissa.symm, hexponent.unique hotherExponent hsame]

end Hexadecimal

namespace Binary64

/-- Nonzero finite sizes begin at the least positive one and end below the power of two
that follows the largest. -/
theorem absValue_bounds {x : Binary64} (hfinite : x.isFinite = true)
    (hne : x.isZero = false) :
    (2 : ℚ) ^ (-1074 : ℤ) ≤ x.absValue ∧ x.absValue < 2 ^ (1024 : ℤ) := by
  have hpos : 1 ≤ x.units := by
    rw [Nat.one_le_iff_ne_zero, Ne, units_eq_zero_iff, hne]
    exact Bool.false_ne_true
  have hlt : x.units < 2 ^ 53 * 2 ^ 2045 := by
    rw [← Format.units_infinity]
    exact Format.binary64.units_strictMono ((isFinite_iff x).mp hfinite)
  have hscale : (0 : ℚ) < 2 ^ 1074 := pow_pos (by decide) _
  constructor
  · have hone : (1 : ℚ) ≤ x.units := by exact_mod_cast hpos
    rw [absValue, zpow_neg, ← one_div]
    exact div_le_div_of_nonneg_right hone hscale.le
  · have hcast : (x.units : ℚ) < 2 ^ 53 * 2 ^ 2045 := by exact_mod_cast hlt
    rw [absValue, div_lt_iff₀ hscale]
    refine hcast.trans_eq ?_
    rw [← pow_add, show (1024 : ℤ) = (1024 : ℕ) from rfl, zpow_natCast, ← pow_add]

end Binary64

namespace Literal

open Hexadecimal (IsLeading IsNormal)

variable {x : Binary64}

/-- The literal is the sign of `x` and then the only text in normal form for its size, with
the place of the leading bit as the exponent. -/
structure WritesExactly (x : Binary64) (literal : String) (text : List Char)
    (numeral : Numeral) : Prop where
  sign : literal.toList = if x.isNegative then '-' :: text else text
  written : ∃ body, text = '0' :: 'x' :: body ∧
    Numeral.Written Digits.Run .hexadecimal body numeral
  value : numeral.value 16 2 = x.absValue
  normal : IsNormal text numeral
  zero_iff : x.isZero = true ↔ text = ['0', 'x', '0', 'p', '+', '0']
  leading : x.isZero = false → numeral.integer = [1] ∧
    IsLeading numeral.exponent.toInt x.absValue ∧
    -1074 ≤ numeral.exponent.toInt ∧ numeral.exponent.toInt ≤ 1023
  unique : ∀ other otherNumeral, IsNormal other otherNumeral →
    otherNumeral.value 16 2 = x.absValue → other = text

/-- The hexadecimal literal of a finite value denotes it exactly and is in normal
form. -/
theorem hexadecimal_writesExactly (x : Binary64) (h : x.isFinite = true) :
    ∃ text numeral, WritesExactly x (hexadecimal x) text numeral := by
  obtain ⟨numeral, hnormal, hvalue⟩ := Hexadecimal.text_isNormal x.abs.bits
  have hsize : numeral.value 16 2 = x.absValue := hvalue
  have hzero : x.isZero = true ↔ numeral.value 16 2 = 0 := by
    rw [hsize, Binary64.absValue, div_eq_zero_iff, or_iff_left (pow_ne_zero _ (by decide)),
      Nat.cast_eq_zero, Binary64.units_eq_zero_iff]
  refine ⟨hexadecimalText x.abs, numeral, toList_write hexadecimalText h,
    hnormal.written.1, hsize, hnormal, ?_, ?_, ?_⟩
  · rw [hzero]
    exact hnormal.value_eq_zero_iff
  · intro hne
    have hnonzero : numeral.value 16 2 ≠ 0 := by
      rw [Ne, ← hzero, hne]
      exact Bool.false_ne_true
    obtain ⟨hinteger, hleading⟩ := hnormal.isLeading hnonzero
    obtain ⟨hlow, hhigh⟩ := Binary64.absValue_bounds h hne
    rw [hsize] at hleading
    refine ⟨hinteger, hleading, ?_, ?_⟩
    · have hlt := hlow.trans_lt hleading.2
      rw [zpow_lt_zpow_iff_right₀ (by decide)] at hlt
      omega
    · have hlt := hleading.1.trans_lt hhigh
      rw [zpow_lt_zpow_iff_right₀ (by decide)] at hlt
      omega
  · intro other otherNumeral hother hotherValue
    exact hnormal.unique hother (hotherValue.trans hsize.symm)

set_option maxRecDepth 4000 in
/-- A subnormal whose leading bit is moved up by fifty places. -/
theorem hexadecimal_writesExactly_subnormal :
    (Binary64.mk 0x8000000000000005).isFinite = true ∧
      ∃ text numeral, WritesExactly ⟨0x8000000000000005⟩ "-0x1.4p-1072" text numeral := by
  have hexact : hexadecimal ⟨0x8000000000000005⟩ = "-0x1.4p-1072" := by decide +kernel
  rw [← hexact]
  exact ⟨by decide, hexadecimal_writesExactly _ (by decide)⟩

end Literal

end WasmFloat
