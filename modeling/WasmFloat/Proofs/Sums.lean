import WasmFloat.Proofs.Rounded

namespace WasmFloat.Binary64

theorem eq_negZero {x : Binary64} (hsign : x.isNegative = true) (hunits : x.units = 0) :
    x = negZero := by
  rw [units_eq_zero_iff, isZero_iff] at hunits
  exact ext_fields hsign hunits

theorem overflowBound_pos : (0 : ℚ) < 2 ^ 1024 - 2 ^ 970 :=
  sub_pos.mpr (pow_lt_pow_right₀ (by norm_num) (by norm_num))

theorem units_neg (x : Binary64) : x.neg.units = x.units := by
  rw [units, units, magnitude_neg]

theorem signedUnits_neg (x : Binary64) : x.neg.signedUnits = -x.signedUnits := by
  rw [signedUnits, signedUnits, isNegative_neg, units_neg]
  cases x.isNegative <;> simp

@[simp] theorem value_neg (x : Binary64) : x.neg.value = -x.value := by
  rw [value, value, signedUnits_neg, Int.cast_neg, neg_div]

theorem sub_eq_add_neg (x y : Binary64) : sub x y = add x y.neg := by
  have hunits : x.signedUnits - y.signedUnits = x.signedUnits + y.neg.signedUnits := by
    rw [signedUnits_neg, Int.sub_eq_add_neg]
  have hsame : (x.isNegative == y.isNegative) = (x.isNegative != !y.isNegative) := by
    cases x.isNegative <;> cases y.isNegative <;> rfl
  rw [sub, add, hunits, hsame]
  simp only [isNan_neg, isInfinite_neg, isNegative_neg]

theorem value_add_value (x y : Binary64) :
    x.value + y.value = ((x.signedUnits + y.signedUnits : ℤ) : ℚ) / 2 ^ 1074 := by
  rw [value, value, Int.cast_add, add_div]

theorem ofUnits_eq_rounded (negativeZero : Bool) (units : ℤ) :
    ofUnits negativeZero units =
      rounded (if units = 0 then negativeZero else decide (units < 0))
        units.natAbs 1 := by
  rw [ofUnits]
  split
  · rename_i hzero
    rw [hzero]
    rfl
  · rfl

theorem roundsTo_ofUnits (negativeZero : Bool) {units : ℤ} {q : ℚ}
    (hq : q = (units : ℚ) / 2 ^ 1074) :
    (ofUnits negativeZero units).RoundsTo
      (if q = 0 then negativeZero else decide (q < 0)) |q| := by
  have hpos : (0 : ℚ) < 2 ^ 1074 := pow_pos (by decide) _
  have hzero : q = 0 ↔ units = 0 := by
    rw [hq, div_eq_iff hpos.ne', zero_mul, Int.cast_eq_zero]
  have hnegative : q < 0 ↔ units < 0 := by
    rw [hq, div_lt_iff₀ hpos, zero_mul, Int.cast_lt_zero]
  have hsize : |q| * 2 ^ 1074 = (units.natAbs : ℚ) / (1 : ℕ) := by
    rw [hq, abs_div, abs_of_pos hpos, div_mul_cancel₀ _ hpos.ne', Nat.cast_one, div_one,
      Nat.cast_natAbs, Int.cast_abs]
  rw [ofUnits_eq_rounded]
  simp only [hzero, hnegative]
  exact roundsTo_rounded _ _ Nat.one_pos hsize

theorem add_of_isNan {x y : Binary64} (h : x.isNan = true ∨ y.isNan = true) :
    add x y = nan := by
  rw [add, if_pos (by rwa [Bool.or_eq_true])]

theorem add_of_finite {x y : Binary64} (hx : x.isFinite = true)
    (hy : y.isFinite = true) :
    add x y = ofUnits (x.isNegative && y.isNegative) (x.signedUnits + y.signedUnits) := by
  simp [add, isInfinite_of_isFinite hx, isInfinite_of_isFinite hy]

theorem add_of_infinite_left {x y : Binary64} (hx : x.isInfinite = true)
    (hy : y.isNan = false) :
    add x y = if y.isInfinite = true ∧ x.isNegative ≠ y.isNegative then nan else x := by
  simp [add, isNan_of_isInfinite hx, hx, hy]

theorem add_of_infinite_right {x y : Binary64} (hx : x.isFinite = true)
    (hy : y.isInfinite = true) : add x y = y := by
  simp [add, isInfinite_of_isFinite hx, isNan_of_isInfinite hy, hy]

theorem roundsTo_add {x y : Binary64} (hx : x.isFinite = true) (hy : y.isFinite = true) :
    (add x y).RoundsTo
      (if x.value + y.value = 0 then x.isNegative && y.isNegative
        else decide (x.value + y.value < 0))
      |x.value + y.value| := by
  rw [add_of_finite hx hy]
  exact roundsTo_ofUnits _ (value_add_value x y)

def NoSum (x y : Binary64) : Prop :=
  x.isNan = true ∨ y.isNan = true ∨
    (x.isInfinite = true ∧ y.isInfinite = true ∧ x.isNegative ≠ y.isNegative)

/-- What the sum of two values has to be. Finite values that cancel give the
positive zero unless both are the negative one. -/
structure IsSum (x y z : Binary64) : Prop where
  nan_iff : z = nan ↔ NoSum x y
  infinite_left : z ≠ nan → x.isInfinite = true → z = x
  infinite_right : z ≠ nan → y.isInfinite = true → z = y
  overflow : x.isFinite = true → y.isFinite = true →
    (2 : ℚ) ^ 1024 - 2 ^ 970 ≤ |x.value + y.value| →
    z = if x.value + y.value < 0 then negInfinity else infinity
  nearest : x.isFinite = true → y.isFinite = true →
    |x.value + y.value| < (2 : ℚ) ^ 1024 - 2 ^ 970 →
    z.IsNearestValue (x.value + y.value)
  zero : x.isFinite = true → y.isFinite = true → x.value + y.value = 0 →
    z = if x = negZero ∧ y = negZero then negZero else Binary64.zero

theorem NoSum.add_eq_nan {x y : Binary64} (h : NoSum x y) : add x y = nan := by
  rcases h with hx | hy | ⟨hx, hy, hsign⟩
  · exact add_of_isNan (Or.inl hx)
  · exact add_of_isNan (Or.inr hy)
  · rw [add_of_infinite_left hx (isNan_of_isInfinite hy), if_pos ⟨hy, hsign⟩]

theorem add_outcome {x y : Binary64} (h : ¬ NoSum x y) :
    (add x y).isNan = false ∧ (x.isInfinite = true → add x y = x) ∧
      (y.isInfinite = true → add x y = y) := by
  simp only [NoSum, not_or, not_and, ne_eq, Decidable.not_not, Bool.not_eq_true] at h
  obtain ⟨hx, hy, hsign⟩ := h
  by_cases hxInfinite : x.isInfinite = true
  · have hleft : add x y = x := by
      rw [add_of_infinite_left hxInfinite hy, if_neg]
      rintro ⟨hyInfinite, hopposite⟩
      exact hopposite (hsign hxInfinite hyInfinite)
    rw [hleft]
    refine ⟨hx, fun _ => rfl, fun hyInfinite => ?_⟩
    exact ext_infinite hxInfinite hyInfinite (hsign hxInfinite hyInfinite)
  have hxFinite := isFinite_of_not (by simp [hx]) hxInfinite
  by_cases hyInfinite : y.isInfinite = true
  · rw [add_of_infinite_right hxFinite hyInfinite]
    exact ⟨hy, fun habsurd => absurd habsurd hxInfinite, fun _ => rfl⟩
  · have hrounds := roundsTo_add hxFinite (isFinite_of_not (by simp [hy]) hyInfinite)
    exact ⟨hrounds.isNan, fun habsurd => absurd habsurd hxInfinite,
      fun habsurd => absurd habsurd hyInfinite⟩

theorem add_eq_zero {x y : Binary64} (hx : x.isFinite = true) (hy : y.isFinite = true)
    (hzero : x.value + y.value = 0) :
    add x y = if x = negZero ∧ y = negZero then negZero else zero := by
  have hunits : x.signedUnits + y.signedUnits = 0 := by
    rw [value_add_value, div_eq_zero_iff, Int.cast_eq_zero] at hzero
    exact hzero.resolve_right (pow_ne_zero _ (by decide))
  rw [add_of_finite hx hy, ofUnits, if_pos hunits]
  split
  · rename_i hboth
    rw [hboth.1, hboth.2]
    decide
  · rename_i hnot
    suffices hsign : (x.isNegative && y.isNegative) = false by
      rw [hsign]
      rfl
    -- Two negative sizes only cancel if both are zero.
    by_contra hsign
    rw [Bool.not_eq_false, Bool.and_eq_true] at hsign
    obtain ⟨hxSign, hySign⟩ := hsign
    rw [signedUnits, signedUnits, if_pos hxSign, if_pos hySign] at hunits
    have hxZero : x.units = 0 := by omega
    have hyZero : y.units = 0 := by omega
    exact hnot ⟨eq_negZero hxSign hxZero, eq_negZero hySign hyZero⟩

theorem add_eq_of_overflow {x y : Binary64} (hx : x.isFinite = true)
    (hy : y.isFinite = true) (hlarge : (2 : ℚ) ^ 1024 - 2 ^ 970 ≤ |x.value + y.value|) :
    add x y = if x.value + y.value < 0 then negInfinity else infinity := by
  have hrounds := roundsTo_add hx hy
  have hne : x.value + y.value ≠ 0 := by
    intro hzero
    rw [hzero, abs_zero] at hlarge
    exact absurd hlarge overflowBound_pos.not_ge
  have hsign := hrounds.sign
  rw [if_neg hne] at hsign
  split
  · rename_i hnegative
    apply ext_infinite (hrounds.overflow hlarge) (by decide)
    rw [hsign, decide_eq_true hnegative]
    decide
  · rename_i hpositive
    apply ext_infinite (hrounds.overflow hlarge) (by decide)
    rw [hsign, decide_eq_false hpositive]
    decide

theorem isNearestValue_add {x y : Binary64} (hx : x.isFinite = true)
    (hy : y.isFinite = true) (hsmall : |x.value + y.value| < (2 : ℚ) ^ 1024 - 2 ^ 970) :
    (add x y).IsNearestValue (x.value + y.value) := by
  have hrounds := roundsTo_add hx hy
  apply (hrounds.nearest hsmall).value
  intro hne
  rw [hrounds.sign, if_neg hne]

/-- Addition gives the sum, and subtraction is addition of the opposite. -/
theorem isSum_add_and_sub_eq_add_neg :
    (∀ x y, IsSum x y (add x y)) ∧ ∀ x y, sub x y = add x y.neg := by
  refine ⟨fun x y => ?_, sub_eq_add_neg⟩
  have hdefined : add x y ≠ nan → ¬ NoSum x y := fun hne hno => hne hno.add_eq_nan
  exact
    { nan_iff := eq_nan_iff NoSum.add_eq_nan fun hno => (add_outcome hno).1
      infinite_left := fun hne => (add_outcome (hdefined hne)).2.1
      infinite_right := fun hne => (add_outcome (hdefined hne)).2.2
      overflow := add_eq_of_overflow
      nearest := isNearestValue_add
      zero := add_eq_zero }

end WasmFloat.Binary64
