import Mathlib.Data.List.DropRight
import WasmFloat.Decimal.Layout
import WasmFloat.Proofs.DecimalRounding
import WasmFloat.Proofs.DigitText

namespace WasmFloat

namespace Digits

def trimmed (digits : List ℕ) : List ℕ :=
  (digits.dropWhile (· == 0)).rdropWhile (· == 0)

theorem eq_zeros {digits : List ℕ} (h : ∀ digit ∈ digits, (digit == 0) = true) :
    digits = List.replicate digits.length 0 :=
  List.eq_replicate_iff.mpr ⟨rfl, fun digit hmem => beq_iff_eq.mp (h digit hmem)⟩

theorem exists_trimmed_append (digits : List ℕ) :
    ∃ count, digits.dropWhile (· == 0) = trimmed digits ++ List.replicate count 0 := by
  have hzeros := eq_zeros fun _ =>
    List.mem_rtakeWhile_imp (p := (· == 0)) (l := digits.dropWhile (· == 0))
  exact ⟨_, by rw [trimmed, ← hzeros, List.rdropWhile_append_rtakeWhile]⟩

theorem exists_padded_trimmed (digits : List ℕ) :
    ∃ front back, digits = padded front back (trimmed digits) ∧
      (digits.dropWhile (· == 0)).length = (trimmed digits).length + back := by
  obtain ⟨back, hdropped⟩ := exists_trimmed_append digits
  have hzeros := eq_zeros fun _ => List.mem_takeWhile_imp (p := (· == 0)) (l := digits)
  refine ⟨(digits.takeWhile (· == 0)).length, back, ?_, ?_⟩
  · rw [padded, ← hzeros, List.append_assoc, ← hdropped, List.takeWhile_append_dropWhile]
  · rw [hdropped, List.length_append, List.length_replicate]

theorem head?_dropWhile_zeros (digits : List ℕ) :
    (digits.dropWhile (· == 0)).head? ≠ some 0 := by
  have hhead := List.head?_dropWhile_not (· == 0) digits
  intro hzero
  rw [hzero] at hhead
  exact Bool.noConfusion hhead

theorem head?_trimmed (digits : List ℕ) : (trimmed digits).head? ≠ some 0 := by
  obtain ⟨count, hdropped⟩ := exists_trimmed_append digits
  intro hzero
  apply head?_dropWhile_zeros digits
  rw [hdropped, List.head?_append, hzero]
  rfl

theorem getLast?_trimmed (digits : List ℕ) : (trimmed digits).getLast? ≠ some 0 := by
  rw [trimmed, List.rdropWhile, List.getLast?_reverse]
  exact head?_dropWhile_zeros _

theorem trimmed_mem {digits : List ℕ} {digit : ℕ} (h : digit ∈ trimmed digits) :
    digit ∈ digits := by
  have hfront := List.rdropWhile_prefix (· == 0) (l := digits.dropWhile (· == 0))
  exact (List.dropWhile_suffix _).subset (hfront.subset h)

end Digits

namespace Numeral

def significant (numeral : Numeral) : List ℕ :=
  Digits.trimmed (numeral.integer ++ numeral.fraction)

/-- The power of ten at which the first digit other than zero stands. -/
def leadingExponent (numeral : Numeral) : ℤ :=
  numeral.exponent.toInt +
    ((numeral.integer ++ numeral.fraction).dropWhile (· == 0)).length -
    numeral.fraction.length - 1

/-- The number of a numeral with its significant digits as the coefficient. -/
def reduced (numeral : Numeral) : Decimal :=
  ⟨Digits.toNat 10 numeral.significant,
    numeral.leadingExponent + 1 - numeral.significant.length⟩

theorem value_reduced (numeral : Numeral) :
    numeral.reduced.value = numeral.value 10 10 := by
  obtain ⟨front, back, hdigits, hlength⟩ :=
    Digits.exists_padded_trimmed (numeral.integer ++ numeral.fraction)
  have hcoefficient : numeral.coefficient 10 =
      Digits.toNat 10 numeral.significant * 10 ^ back := by
    rw [coefficient, hdigits, Digits.toNat_padded, ← significant]
  rw [← significant] at hlength
  rw [Decimal.value, value, hcoefficient]
  simp only [reduced, Nat.cast_mul, Nat.cast_pow, Nat.cast_ofNat]
  rw [mul_assoc, mul_assoc, ← zpow_natCast, ← zpow_add₀ (by decide),
    ← zpow_add₀ (by decide), leadingExponent, hlength]
  congr 2
  push_cast
  ring

theorem coefficient_reduced_lt {numeral : Numeral}
    (h : ∀ digit ∈ numeral.integer ++ numeral.fraction, digit < 10) :
    numeral.reduced.coefficient < 10 ^ numeral.significant.length :=
  Digits.toNat_lt fun digit hmem => h digit (Digits.trimmed_mem hmem)

theorem pow_le_coefficient_reduced {numeral : Numeral} (h : numeral.value 10 10 ≠ 0) :
    ∃ count, numeral.significant.length = count + 1 ∧
      10 ^ count ≤ numeral.reduced.coefficient := by
  have hhead := Digits.head?_trimmed (numeral.integer ++ numeral.fraction)
  rw [← value_reduced, Decimal.value, reduced] at h
  rw [← significant] at hhead
  rw [reduced]
  cases hdigits : numeral.significant with
  | nil =>
      rw [hdigits] at h
      exact absurd (by simp [Digits.toNat]) h
  | cons digit digits =>
      rw [hdigits, List.head?_cons, Ne, Option.some.injEq] at hhead
      exact ⟨digits.length, rfl, Digits.pow_le_toNat hhead digits⟩

theorem not_ten_dvd_reduced {numeral : Numeral} (h : numeral.value 10 10 ≠ 0)
    (hdigits : ∀ digit ∈ numeral.integer ++ numeral.fraction, digit < 10) :
    ¬ 10 ∣ numeral.reduced.coefficient := by
  obtain ⟨count, hlength, -⟩ := pow_le_coefficient_reduced h
  have hlast := Digits.getLast?_trimmed (numeral.integer ++ numeral.fraction)
  have hmem := @Digits.trimmed_mem (numeral.integer ++ numeral.fraction)
  rw [← significant] at hlast hmem
  rw [reduced]
  generalize numeral.significant = digits at hlength hlast hmem
  cases digits using List.reverseRecOn with
  | nil => exact absurd hlength (by simp)
  | append_singleton front digit =>
      rw [List.getLast?_concat, Ne, Option.some.injEq] at hlast
      exact Digits.not_dvd_toNat hlast (hdigits digit (hmem (by simp))) front

end Numeral

namespace Decimal

theorem coefficient_of_value_eq {number other : Decimal} (h : number.value = other.value)
    (hle : number.exponent ≤ other.exponent) :
    number.coefficient =
      other.coefficient * 10 ^ (other.exponent - number.exponent).toNat := by
  obtain ⟨coefficient, exponent⟩ := other
  rw [value_refine coefficient hle, value, value] at h
  exact_mod_cast mul_right_cancel₀ (zpow_ne_zero _ (by decide)) h

theorem exponent_le_of_value_eq {number other : Decimal} (h : number.value = other.value)
    (hdvd : ¬ 10 ∣ number.coefficient) : other.exponent ≤ number.exponent := by
  by_contra hlt
  rw [not_le] at hlt
  apply hdvd
  rw [coefficient_of_value_eq h hlt.le]
  exact Nat.dvd_mul_left_of_dvd (dvd_pow_self 10 (by omega)) _

/-- A number is written in one way without zeros at the end. -/
theorem eq_of_value_eq {number other : Decimal} (h : number.value = other.value)
    (hnumber : ¬ 10 ∣ number.coefficient) (hother : ¬ 10 ∣ other.coefficient) :
    number = other := by
  have hexponent := le_antisymm (exponent_le_of_value_eq h.symm hother)
    (exponent_le_of_value_eq h hnumber)
  have hcoefficient := coefficient_of_value_eq h hexponent.le
  rw [hexponent, sub_self, Int.toNat_zero, pow_zero, mul_one] at hcoefficient
  obtain ⟨coefficient, exponent⟩ := number
  rw [Decimal.mk.injEq]
  exact ⟨hcoefficient, hexponent⟩

end Decimal

theorem Digits.length_text {n count : ℕ} (hlow : 10 ^ count ≤ n)
    (hhigh : n < 10 ^ (count + 1)) : (text 10 n).length = count + 1 := by
  apply le_antisymm
  · exact (Nat.length_toDigits_le_iff (by decide) (Nat.succ_pos count)).mpr hhigh
  · rcases Nat.eq_zero_or_pos count with rfl | hpos
    · exact Nat.length_toDigits_pos
    · by_contra hless
      have hle : (text 10 n).length ≤ count := by omega
      exact absurd ((Nat.length_toDigits_le_iff (by decide) hpos).mp hle) hlow.not_gt

/-- The number that a numeral stands for, with no zeros at the end, tells how many
digits are significant and where the first one stands. -/
theorem Numeral.significance {numeral : Numeral} {number : Decimal}
    (hdigits : ∀ digit ∈ numeral.integer ++ numeral.fraction, digit < 10)
    (hvalue : numeral.value 10 10 = number.value) (hne : number.value ≠ 0)
    (hdvd : ¬ 10 ∣ number.coefficient) :
    (∃ count, numeral.significant.length = count + 1 ∧
      10 ^ count ≤ number.coefficient) ∧
    numeral.leadingExponent = number.leadingExponent := by
  rw [← hvalue] at hne
  have hreduced : numeral.reduced = number :=
    Decimal.eq_of_value_eq (numeral.value_reduced.trans hvalue)
      (not_ten_dvd_reduced hne hdigits) hdvd
  obtain ⟨count, hlength, hlow⟩ := pow_le_coefficient_reduced hne
  have hhigh := coefficient_reduced_lt hdigits
  subst hreduced
  refine ⟨⟨count, hlength, hlow⟩, ?_⟩
  rw [hlength] at hhigh
  rw [Decimal.leadingExponent, Digits.length_text hlow hhigh, reduced, hlength]
  simp

end WasmFloat
