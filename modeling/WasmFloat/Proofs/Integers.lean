import WasmFloat.Binary64.Integral
import WasmFloat.Proofs.Nearest

namespace WasmFloat

namespace Format

/-- An exact quotient is not rounded. -/
theorem nearest_eq (F : Format) (hbits : 0 < F.fractionBits)
    {numerator denominator pattern : ℕ} (hpos : 0 < denominator)
    (h : numerator = F.units pattern * denominator) :
    F.nearest numerator denominator = pattern := by
  have hne : (denominator : ℚ) ≠ 0 := by exact_mod_cast hpos.ne'
  have hnearest := F.isNearest_nearest hbits numerator hpos
  rw [h, Nat.cast_mul, mul_div_cancel_right₀ _ hne] at hnearest
  rw [h]
  exact hnearest.unique (F.isNearest_units pattern)

theorem nearest_units (F : Format) (hbits : 0 < F.fractionBits) (pattern : ℕ) :
    F.nearest (F.units pattern) 1 = pattern :=
  F.nearest_eq hbits Nat.one_pos (Nat.mul_one _).symm

/-- A number too short to reach the hidden bit is doubled, which takes one from the
exponent. -/
theorem exists_units_mul_pow (F : Format) {kept : ℕ} (h : kept ≤ 2 * F.hiddenBit)
    (excess : ℕ) : ∃ pattern, F.units pattern = kept * 2 ^ excess := by
  induction excess generalizing kept with
  | zero => exact ⟨0 * F.hiddenBit + kept, F.units_add 0 (Or.inl rfl) h⟩
  | succ excess ih =>
      rcases Nat.lt_or_ge kept F.hiddenBit with hlow | hhigh
      · obtain ⟨pattern, hpattern⟩ := ih (show 2 * kept ≤ 2 * F.hiddenBit by omega)
        exact ⟨pattern, by rw [hpattern, pow_succ]; ring⟩
      · exact ⟨(excess + 1) * F.hiddenBit + kept, F.units_add _ (Or.inr hhigh) h⟩

theorem lt_infinity_of_units_le {pattern n : ℕ} (hle : n ≤ 2 ^ 53)
    (h : binary64.units pattern ≤ n * binary64.one) : pattern < binary64.infinity := by
  have hlarge : 2 ^ 53 * binary64.one < binary64.units binary64.infinity := by
    decide +kernel
  rw [← binary64.units_strictMono.lt_iff_lt]
  exact (h.trans (Nat.mul_le_mul_right _ hle)).trans_lt hlarge

theorem exists_units_eq {n : ℕ} (h : n ≤ 2 ^ 53) :
    ∃ pattern, pattern < binary64.infinity ∧
      binary64.units pattern = n * binary64.one := by
  obtain ⟨pattern, hpattern⟩ := binary64.exists_units_mul_pow
    (show n ≤ 2 * binary64.hiddenBit from h) 1074
  rw [← one_eq] at hpattern
  exact ⟨pattern, lt_infinity_of_units_le h hpattern.le, hpattern⟩

/-- From `2 ^ 53` on, a value is an even integer. -/
theorem exists_even_of_large {pattern : ℕ}
    (h : 2 ^ 53 * binary64.one ≤ binary64.units pattern) :
    ∃ half, binary64.units pattern = 2 * half * binary64.one := by
  have hhidden : 2 * binary64.hiddenBit = 2 ^ 53 := rfl
  obtain ⟨excess, kept, rfl, hlow, hhigh⟩ := binary64.exists_excess pattern
  rw [binary64.units_add excess hlow hhigh.le, one_eq] at h ⊢
  rw [hhidden] at hhigh
  -- In steps of one or less the kept bits would not reach `2 ^ 53`.
  have hexcess : 1074 < excess := by
    by_contra hle
    rw [not_lt] at hle
    have hpow : 2 ^ excess ≤ 2 ^ 1074 := pow_le_pow_right₀ (by decide) hle
    have hpos : 0 < 2 ^ 1074 := pow_pos (by decide) _
    generalize 2 ^ 1074 = scale at h hpow hpos
    have hover := Nat.mul_le_mul_left kept hpow
    have hunder := Nat.mul_lt_mul_of_pos_right hhigh hpos
    omega
  refine ⟨kept * 2 ^ (excess - 1075), ?_⟩
  have hsplit : 2 ^ excess = 2 * 2 ^ (excess - 1075) * 2 ^ 1074 := by
    rw [← Nat.pow_succ', ← Nat.pow_add]
    congr 1
    omega
  rw [hsplit]
  generalize 2 ^ 1074 = scale
  ring

end Format

namespace Binary64

theorem rounded_units {pattern : ℕ} (h : pattern < Format.binary64.infinity)
    (negative : Bool) :
    rounded negative (Format.binary64.units pattern) 1 = ofMagnitude negative pattern := by
  rw [rounded, Format.nearest_units _ (by decide), Nat.min_eq_left h.le]

theorem rounded_of_units {x : Binary64} (h : x.isFinite = true) {units : ℕ}
    (hunits : units = x.units) (negative : Bool) :
    rounded negative units 1 = ofMagnitude negative x.magnitude := by
  rw [isFinite_iff] at h
  rw [hunits, Binary64.units, rounded_units h]

theorem hasFraction_of_not_isFinite {x : Binary64} (h : x.isFinite = false) :
    x.hasFraction = false := by
  rw [hasFraction, h, Bool.false_and]

theorem toIntegral_of_hasFraction {x : Binary64} (h : x.hasFraction = true) (n : ℕ) :
    x.toIntegral n = x.integral n := if_pos h

theorem toIntegral_of_not_hasFraction {x : Binary64} (h : ¬ x.hasFraction = true) (n : ℕ) :
    x.toIntegral n = x.quieted := if_neg h

theorem units_of_isInteger {x : Binary64} (h : x.isInteger = true) :
    x.units = x.whole * Format.binary64.one := by
  rw [isInteger, Bool.and_eq_true, beq_iff_eq] at h
  rw [whole]
  exact (Nat.div_mul_cancel (Nat.dvd_of_mod_eq_zero h.2)).symm

theorem isFinite_of_isInteger {x : Binary64} (h : x.isInteger = true) :
    x.isFinite = true := by
  rw [isInteger, Bool.and_eq_true] at h
  exact h.1

theorem isInteger_of_isZero {x : Binary64} (h : x.isZero = true) :
    x.isInteger = true := by
  simp [isInteger, isFinite_of_isZero h, (units_eq_zero_iff x).mpr h]

theorem whole_of_isZero {x : Binary64} (h : x.isZero = true) : x.whole = 0 := by
  rw [whole, (units_eq_zero_iff x).mpr h, Nat.zero_div]

theorem ofNat_whole {x : Binary64} (h : x.isInteger = true) :
    ofNat x.whole = x.abs := by
  rw [ofNat, rounded_of_units (isFinite_of_isInteger h) (units_of_isInteger h).symm,
    ofMagnitude_false]

theorem isInteger_of_large {x : Binary64} (hfinite : x.isFinite = true)
    (h : 2 ^ 53 * Format.binary64.one ≤ x.units) :
    x.isInteger = true ∧ x.whole % 2 = 0 := by
  obtain ⟨half, hhalf⟩ := Format.exists_even_of_large h
  have hunits : x.units = 2 * half * Format.binary64.one := hhalf
  rw [isInteger, Bool.and_eq_true, beq_iff_eq, whole, hunits,
    Nat.mul_div_cancel _ Format.one_pos, Nat.mul_mod_left, Nat.mul_mod_right]
  exact ⟨⟨hfinite, rfl⟩, rfl⟩

theorem even_whole_of_large {x : Binary64} (hfinite : x.isFinite = true)
    (h : 2 ^ 53 ≤ x.whole) : x.whole % 2 = 0 := by
  refine (isInteger_of_large hfinite ?_).2
  exact (Nat.le_div_iff_mul_le Format.one_pos).mp h

theorem exists_ofNat {n : ℕ} (h : n < 2 ^ 53) :
    (ofNat n).isFinite = true ∧ (ofNat n).isNegative = false ∧
      (ofNat n).units = n * Format.binary64.one := by
  obtain ⟨pattern, hpattern, hunits⟩ := Format.exists_units_eq h.le
  have hword : pattern < 2 ^ 63 := Nat.lt_trans hpattern infinity_lt
  have hvalue : ofNat n = ofMagnitude false pattern := by
    rw [ofNat, ← hunits, rounded_units hpattern]
  rw [hvalue, isFinite_iff, units, magnitude_ofMagnitude false hword]
  exact ⟨hpattern, isNegative_ofMagnitude false hword, hunits⟩

end Binary64

end WasmFloat
