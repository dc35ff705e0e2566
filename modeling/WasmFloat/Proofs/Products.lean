import WasmFloat.Proofs.Sums

namespace WasmFloat.Binary64

theorem fields_ofMagnitude_infinity (negative : Bool) :
    (ofMagnitude negative Format.binary64.infinity).isNegative = negative ∧
      (ofMagnitude negative Format.binary64.infinity).isInfinite = true := by
  rw [isInfinite_iff]
  exact ⟨isNegative_ofMagnitude negative infinity_lt,
    magnitude_ofMagnitude negative infinity_lt⟩

theorem fields_ofMagnitude_zero (negative : Bool) :
    (ofMagnitude negative 0).isNegative = negative ∧
      (ofMagnitude negative 0).isZero = true := by
  cases negative <;> decide

section Product

variable {x y : Binary64}

def NoProduct (x y : Binary64) : Prop :=
  x.isNan = true ∨ y.isNan = true ∨ (x.isZero = true ∧ y.isInfinite = true) ∨
    (x.isInfinite = true ∧ y.isZero = true)

structure IsProduct (x y z : Binary64) : Prop where
  nan_iff : z = nan ↔ NoProduct x y
  sign : z ≠ nan → z.isNegative = (x.isNegative ^^ y.isNegative)
  infinite : z ≠ nan → x.isInfinite = true ∨ y.isInfinite = true → z.isInfinite = true
  rounds : x.isFinite = true → y.isFinite = true →
    z.RoundsTo (x.isNegative ^^ y.isNegative) (x.absValue * y.absValue)

theorem mul_of_isNan (h : x.isNan = true ∨ y.isNan = true) : mul x y = nan := by
  rw [mul, if_pos (by rwa [Bool.or_eq_true])]

theorem mul_of_infinite (hx : x.isNan = false) (hy : y.isNan = false)
    (h : x.isInfinite = true ∨ y.isInfinite = true) :
    mul x y = if x.isZero = true ∨ y.isZero = true then nan
      else ofMagnitude (x.isNegative ^^ y.isNegative) Format.binary64.infinity := by
  simp [mul, hx, hy, h]

theorem roundsTo_mul (hx : x.isFinite = true) (hy : y.isFinite = true) :
    (mul x y).RoundsTo (x.isNegative ^^ y.isNegative) (x.absValue * y.absValue) := by
  have hproduct : mul x y = rounded (x.isNegative ^^ y.isNegative) (x.units * y.units)
      Format.binary64.one := by
    simp [mul, isInfinite_of_isFinite hx, isInfinite_of_isFinite hy]
  rw [hproduct]
  apply roundsTo_rounded _ _ Format.one_pos
  simp only [absValue, Format.one_eq, Nat.cast_mul, Nat.cast_pow, Nat.cast_ofNat]
  have hpos : (0 : ℚ) < 2 ^ 1074 := pow_pos (by decide) _
  generalize (2 : ℚ) ^ 1074 = scale at hpos ⊢
  field_simp

theorem NoProduct.mul_eq_nan (h : NoProduct x y) : mul x y = nan := by
  rcases h with hx | hy | ⟨hx, hy⟩ | ⟨hx, hy⟩
  · exact mul_of_isNan (Or.inl hx)
  · exact mul_of_isNan (Or.inr hy)
  · have hxFinite := isInfinite_of_isFinite (isFinite_of_isZero hx)
    rw [mul_of_infinite hxFinite.2 (isNan_of_isInfinite hy) (Or.inr hy),
      if_pos (Or.inl hx)]
  · have hyFinite := isInfinite_of_isFinite (isFinite_of_isZero hy)
    rw [mul_of_infinite (isNan_of_isInfinite hx) hyFinite.2 (Or.inl hx),
      if_pos (Or.inr hy)]

theorem mul_outcome (h : ¬ NoProduct x y) :
    (mul x y).isNan = false ∧
      (mul x y).isNegative = (x.isNegative ^^ y.isNegative) ∧
      (x.isInfinite = true ∨ y.isInfinite = true → (mul x y).isInfinite = true) := by
  simp only [NoProduct, not_or, not_and, Bool.not_eq_true] at h
  obtain ⟨hx, hy, hleft, hright⟩ := h
  by_cases hinfinite : x.isInfinite = true ∨ y.isInfinite = true
  · have hzero : ¬ (x.isZero = true ∨ y.isZero = true) := by
      rintro (hxZero | hyZero)
      · have hxFinite := isInfinite_of_isFinite (isFinite_of_isZero hxZero)
        simp [hxFinite.1, hleft hxZero] at hinfinite
      · have hyFinite := isInfinite_of_isFinite (isFinite_of_isZero hyZero)
        rcases hinfinite with hxInfinite | hyInfinite
        · simp [hright hxInfinite] at hyZero
        · simp [hyFinite.1] at hyInfinite
    rw [mul_of_infinite hx hy hinfinite, if_neg hzero]
    obtain ⟨hsign, hsize⟩ :=
      fields_ofMagnitude_infinity (x.isNegative ^^ y.isNegative)
    exact ⟨isNan_of_isInfinite hsize, hsign, fun _ => hsize⟩
  · rw [not_or] at hinfinite
    have hrounds := roundsTo_mul (isFinite_of_not (by simp [hx]) hinfinite.1)
      (isFinite_of_not (by simp [hy]) hinfinite.2)
    exact ⟨hrounds.isNan, hrounds.sign, fun hor => absurd hor (not_or.mpr hinfinite)⟩

end Product

section Quotient

variable {x y : Binary64}

def NoQuotient (x y : Binary64) : Prop :=
  x.isNan = true ∨ y.isNan = true ∨ (x.isZero = true ∧ y.isZero = true) ∨
    (x.isInfinite = true ∧ y.isInfinite = true)

structure IsQuotient (x y z : Binary64) : Prop where
  nan_iff : z = nan ↔ NoQuotient x y
  sign : z ≠ nan → z.isNegative = (x.isNegative ^^ y.isNegative)
  infinite : z ≠ nan → x.isInfinite = true ∨ y.isZero = true → z.isInfinite = true
  zero : x.isFinite = true → y.isInfinite = true → z.isZero = true
  rounds : x.isFinite = true → y.isFinite = true → y.isZero = false →
    z.RoundsTo (x.isNegative ^^ y.isNegative) (x.absValue / y.absValue)

theorem div_of_isNan (h : x.isNan = true ∨ y.isNan = true) : div x y = nan := by
  rw [div, if_pos (by rwa [Bool.or_eq_true])]

theorem div_of_infinite_left (hx : x.isInfinite = true) (hy : y.isNan = false) :
    div x y = if y.isInfinite = true then nan
      else ofMagnitude (x.isNegative ^^ y.isNegative) Format.binary64.infinity := by
  simp [div, isNan_of_isInfinite hx, hx, hy]

theorem div_of_infinite_right (hx : x.isFinite = true) (hy : y.isInfinite = true) :
    div x y = ofMagnitude (x.isNegative ^^ y.isNegative) 0 := by
  simp [div, isInfinite_of_isFinite hx, isNan_of_isInfinite hy, hy]

theorem div_of_isZero (hx : x.isFinite = true) (hy : y.isZero = true) :
    div x y = if x.isZero = true then nan
      else ofMagnitude (x.isNegative ^^ y.isNegative) Format.binary64.infinity := by
  simp [div, isInfinite_of_isFinite hx, isInfinite_of_isFinite (isFinite_of_isZero hy), hy]

theorem roundsTo_div (hx : x.isFinite = true) (hy : y.isFinite = true)
    (hzero : y.isZero = false) :
    (div x y).RoundsTo (x.isNegative ^^ y.isNegative) (x.absValue / y.absValue) := by
  have hquotient : div x y = rounded (x.isNegative ^^ y.isNegative)
      (x.units * Format.binary64.one) y.units := by
    simp [div, isInfinite_of_isFinite hx, isInfinite_of_isFinite hy, hzero]
  have hunits : 0 < y.units := by
    rw [Nat.pos_iff_ne_zero, ne_eq, units_eq_zero_iff, hzero]
    exact Bool.false_ne_true
  rw [hquotient]
  apply roundsTo_rounded _ _ hunits
  simp only [absValue, Format.one_eq, Nat.cast_mul, Nat.cast_pow, Nat.cast_ofNat]
  have hpos : (0 : ℚ) < 2 ^ 1074 := pow_pos (by decide) _
  have hdivisor : (0 : ℚ) < y.units := by exact_mod_cast hunits
  generalize (2 : ℚ) ^ 1074 = scale at hpos ⊢
  field_simp

theorem isZero_div (hx : x.isFinite = true) (hy : y.isInfinite = true) :
    (div x y).isZero = true := by
  rw [div_of_infinite_right hx hy]
  exact (fields_ofMagnitude_zero _).2

theorem NoQuotient.div_eq_nan (h : NoQuotient x y) : div x y = nan := by
  rcases h with hx | hy | ⟨hx, hy⟩ | ⟨hx, hy⟩
  · exact div_of_isNan (Or.inl hx)
  · exact div_of_isNan (Or.inr hy)
  · rw [div_of_isZero (isFinite_of_isZero hx) hy, if_pos hx]
  · rw [div_of_infinite_left hx (isNan_of_isInfinite hy), if_pos hy]

theorem div_outcome (h : ¬ NoQuotient x y) :
    (div x y).isNan = false ∧
      (div x y).isNegative = (x.isNegative ^^ y.isNegative) ∧
      (x.isInfinite = true ∨ y.isZero = true → (div x y).isInfinite = true) := by
  simp only [NoQuotient, not_or, not_and, Bool.not_eq_true] at h
  obtain ⟨hx, hy, hzeros, hinfinities⟩ := h
  obtain ⟨hsign, hsize⟩ := fields_ofMagnitude_infinity (x.isNegative ^^ y.isNegative)
  by_cases hxInfinite : x.isInfinite = true
  · rw [div_of_infinite_left hxInfinite hy, if_neg (by simp [hinfinities hxInfinite])]
    exact ⟨isNan_of_isInfinite hsize, hsign, fun _ => hsize⟩
  have hxFinite := isFinite_of_not (by simp [hx]) hxInfinite
  by_cases hyInfinite : y.isInfinite = true
  · rw [div_of_infinite_right hxFinite hyInfinite]
    obtain ⟨hzeroSign, hzeroSize⟩ := fields_ofMagnitude_zero (x.isNegative ^^ y.isNegative)
    refine ⟨(isInfinite_of_isFinite (isFinite_of_isZero hzeroSize)).2, hzeroSign, ?_⟩
    rintro (habsurd | hyZero)
    · exact absurd habsurd hxInfinite
    · rw [(isInfinite_of_isFinite (isFinite_of_isZero hyZero)).1] at hyInfinite
      exact absurd hyInfinite Bool.false_ne_true
  have hyFinite := isFinite_of_not (by simp [hy]) hyInfinite
  by_cases hyZero : y.isZero = true
  · rw [div_of_isZero hxFinite hyZero,
      if_neg fun hxZero => by simp [hzeros hxZero] at hyZero]
    exact ⟨isNan_of_isInfinite hsize, hsign, fun _ => hsize⟩
  · have hrounds := roundsTo_div hxFinite hyFinite (by simpa using hyZero)
    refine ⟨hrounds.isNan, hrounds.sign, ?_⟩
    rintro (habsurd | habsurd)
    · exact absurd habsurd hxInfinite
    · exact absurd habsurd hyZero

end Quotient

theorem isProduct_mul_and_isQuotient_div :
    (∀ x y, IsProduct x y (mul x y)) ∧ ∀ x y, IsQuotient x y (div x y) := by
  refine ⟨fun x y => ?_, fun x y => ?_⟩
  · have hdefined : mul x y ≠ nan → ¬ NoProduct x y := fun hne hno => hne hno.mul_eq_nan
    exact
      { nan_iff := eq_nan_iff NoProduct.mul_eq_nan fun hno => (mul_outcome hno).1
        sign := fun hne => (mul_outcome (hdefined hne)).2.1
        infinite := fun hne => (mul_outcome (hdefined hne)).2.2
        rounds := roundsTo_mul }
  · have hdefined : div x y ≠ nan → ¬ NoQuotient x y :=
      fun hne hno => hne hno.div_eq_nan
    exact
      { nan_iff := eq_nan_iff NoQuotient.div_eq_nan fun hno => (div_outcome hno).1
        sign := fun hne => (div_outcome (hdefined hne)).2.1
        infinite := fun hne => (div_outcome (hdefined hne)).2.2
        zero := isZero_div
        rounds := roundsTo_div }

end WasmFloat.Binary64
