import WasmFloat.Proofs.Integers
import WasmFloat.Proofs.Order

namespace WasmFloat

namespace Format

/-- What a number leaves over a power of two has no more bits than the number. -/
theorem exists_units_mod_one (pattern : ℕ) :
    ∃ rest, binary64.units rest = binary64.units pattern % binary64.one := by
  obtain ⟨excess, kept, rfl, hlow, hhigh⟩ := binary64.exists_excess pattern
  rw [binary64.units_add excess hlow hhigh.le, one_eq]
  rcases Nat.le_total excess 1074 with hle | hge
  · have hkept : kept % 2 ^ (1074 - excess) ≤ 2 * binary64.hiddenBit :=
      (Nat.mod_le _ _).trans hhigh.le
    obtain ⟨rest, hrest⟩ := binary64.exists_units_mul_pow hkept excess
    refine ⟨rest, ?_⟩
    rw [hrest, ← Nat.mul_mod_mul_right, ← pow_add, Nat.sub_add_cancel hle]
  · refine ⟨0, ?_⟩
    rw [units_zero, ← Nat.sub_add_cancel hge, pow_add, ← Nat.mul_assoc,
      Nat.mul_mod_left]

end Format

/-- No integer is closer to `q`, and of two that are equally close it is the even
one. -/
structure IsNearestInteger (q : ℚ) (n : ℤ) : Prop where
  closest : ∀ m : ℤ, |(n : ℚ) - q| ≤ |(m : ℚ) - q|
  even : ∀ m : ℤ, m ≠ n → |(n : ℚ) - q| = |(m : ℚ) - q| → n % 2 = 0

theorem IsNearestInteger.neg {q : ℚ} {n : ℤ} (h : IsNearestInteger q n) :
    IsNearestInteger (-q) (-n) := by
  have hflip : ∀ m : ℤ, |(m : ℚ) - -q| = |((-m : ℤ) : ℚ) - q| := by
    intro m
    rw [← abs_neg, Int.cast_neg]
    congr 1
    ring
  refine ⟨fun m => ?_, fun m hne heq => ?_⟩
  · rw [hflip, hflip, Int.neg_neg]
    exact h.closest (-m)
  · rw [hflip, hflip, Int.neg_neg] at heq
    have heven := h.even (-m) (fun hm => hne (by omega)) heq
    omega

theorem roundsHalfEven_natCast (k : ℕ) : RoundsHalfEven k k := by
  have hround := roundsHalfEven_roundHalfEven k Nat.one_pos
  rwa [roundHalfEven_one, Nat.cast_one, div_one] at hround

/-- Other integers are a whole step from the rounded one, so at least half a step
from the number. -/
theorem RoundsHalfEven.isNearestInteger {q : ℚ} {k : ℕ} (h : RoundsHalfEven q k) :
    IsNearestInteger q k := by
  have hclose : |((k : ℤ) : ℚ) - q| ≤ 1 / 2 := by
    rw [Int.cast_natCast, abs_le]
    exact ⟨by linarith [h.le_above], by linarith [h.le_below]⟩
  have hfar : ∀ m : ℤ, m ≠ k → 1 / 2 ≤ |(m : ℚ) - q| := by
    intro m hne
    have hstep : (1 : ℚ) ≤ |(m : ℚ) - ((k : ℤ) : ℚ)| := by
      exact_mod_cast Int.one_le_abs (sub_ne_zero.mpr hne)
    have htriangle := abs_sub_le (m : ℚ) q ((k : ℤ) : ℚ)
    rw [abs_sub_comm q] at htriangle
    linarith
  refine ⟨fun m => ?_, fun m hne heq => ?_⟩
  · by_cases hne : m = k
    · rw [hne]
    · exact hclose.trans (hfar m hne)
  · have htie : |((k : ℤ) : ℚ) - q| = 1 / 2 :=
      le_antisymm hclose (heq ▸ hfar m hne)
    suffices heven : k % 2 = 0 by omega
    rw [Int.cast_natCast] at htie
    rcases abs_eq (by norm_num) |>.mp htie with habove | hbelow
    · exact h.even_below (by linarith)
    · exact h.even_above (by linarith)

namespace Binary64

variable {x : Binary64}

theorem hasFraction_iff :
    x.hasFraction = true ↔
      x.isFinite = true ∧ x.units % Format.binary64.one ≠ 0 := by
  rw [hasFraction, Bool.and_eq_true, bne_iff_ne]

theorem isInteger_of_not_hasFraction (hfinite : x.isFinite = true)
    (h : ¬ x.hasFraction = true) : x.isInteger = true := by
  rw [hasFraction_iff, not_and, not_not] at h
  rw [isInteger, Bool.and_eq_true, beq_iff_eq]
  exact ⟨hfinite, h hfinite⟩

theorem not_hasFraction_of_isInteger (h : x.isInteger = true) :
    ¬ x.hasFraction = true := by
  rw [isInteger, Bool.and_eq_true, beq_iff_eq] at h
  rw [hasFraction_iff]
  exact fun hfraction => hfraction.2 h.2

/-- Only values of few bits have room for a fraction. -/
theorem whole_lt_of_hasFraction (h : x.hasFraction = true) : x.whole < 2 ^ 53 := by
  by_contra hge
  have hlarge := (Nat.le_div_iff_mul_le Format.one_pos).mp (Nat.le_of_not_lt hge)
  have hfinite := (hasFraction_iff.mp h).1
  exact not_hasFraction_of_isInteger (isInteger_of_large hfinite hlarge).1 h

theorem units_eq_whole_add (x : Binary64) :
    x.units = x.whole * Format.binary64.one + x.units % Format.binary64.one := by
  rw [whole, Nat.div_add_mod']

/-- Integers up to `2 ^ 53` are values. -/
theorem fields_integral (x : Binary64) {n : ℕ} (h : n ≤ 2 ^ 53) :
    (x.integral n).isFinite = true ∧ (x.integral n).isNegative = x.isNegative ∧
      (x.integral n).units = n * Format.binary64.one := by
  obtain ⟨pattern, hfinite, hpattern⟩ := Format.exists_units_eq h
  have hword := hfinite.trans infinity_lt
  rw [integral, ← hpattern, rounded_units hfinite, isFinite_iff, units,
    magnitude_ofMagnitude _ hword, isNegative_ofMagnitude _ hword]
  exact ⟨hfinite, rfl, rfl⟩

theorem absValue_eq_div (x : Binary64) :
    x.absValue = x.units / (Format.binary64.one : ℕ) := by
  rw [absValue, Format.one_eq, Nat.cast_pow, Nat.cast_ofNat]

theorem absValue_eq_iff {n : ℕ} :
    x.absValue = n ↔ x.units = n * Format.binary64.one := by
  have hne : ((Format.binary64.one : ℕ) : ℚ) ≠ 0 := by exact_mod_cast Format.one_pos.ne'
  rw [absValue_eq_div, div_eq_iff hne]
  exact_mod_cast Iff.rfl

theorem absValue_of_units {n : ℕ} (h : x.units = n * Format.binary64.one) :
    x.absValue = n := absValue_eq_iff.mpr h

theorem value_of_units {n : ℕ} (hsign : x.isNegative = false)
    (h : x.units = n * Format.binary64.one) : x.value = n := by
  rw [value_eq, hsign, if_neg Bool.false_ne_true, absValue_of_units h]

theorem floor_eq_integral (h : x.hasFraction = true) :
    x.floor = x.integral (if x.isNegative then x.whole + 1 else x.whole) :=
  toIntegral_of_hasFraction h _

theorem ceil_eq_integral (h : x.hasFraction = true) :
    x.ceil = x.integral (if x.isNegative then x.whole else x.whole + 1) :=
  toIntegral_of_hasFraction h _

theorem exists_floor_eq (h : x.hasFraction = true) :
    ∃ n ≤ 2 ^ 53, x.floor = x.integral n := by
  have hwhole := whole_lt_of_hasFraction h
  exact ⟨_, by split <;> omega, floor_eq_integral h⟩

theorem exists_ceil_eq (h : x.hasFraction = true) :
    ∃ n ≤ 2 ^ 53, x.ceil = x.integral n := by
  have hwhole := whole_lt_of_hasFraction h
  exact ⟨_, by split <;> omega, ceil_eq_integral h⟩

theorem roundHalfEven_le (x : Binary64) :
    roundHalfEven x.units Format.binary64.one ≤ x.whole + 1 := by
  simp only [roundHalfEven, ← whole.eq_1]
  split <;> omega

structure IsNearestIntegral (x z : Binary64) : Prop where
  sign : (x.isNan = true → x.isQuietNan = true) → z.isNegative = x.isNegative
  unchanged : x.isZero = true ∨ x.isInfinite = true ∨ x.isQuietNan = true ∨
    x.isInteger = true → z = x
  nearest : x.isFinite = true →
    z.isInteger = true ∧ ∃ n : ℤ, z.value = n ∧ IsNearestInteger x.value n
  zero : x.isFinite = true → z.isZero = true →
    z = if x.isNegative then negZero else Binary64.zero

theorem isInteger_of_units {n : ℕ} (hfinite : x.isFinite = true)
    (h : x.units = n * Format.binary64.one) : x.isInteger = true := by
  rw [isInteger, hfinite, h, Nat.mul_mod_left]
  rfl

/-- Under one sign it is enough to round the sizes. -/
theorem isNearestInteger_value {n : ℕ} {z : Binary64}
    (hz : z.units = n * Format.binary64.one) (hsign : z.isNegative = x.isNegative)
    (hround : RoundsHalfEven x.absValue n) :
    ∃ m : ℤ, z.value = m ∧ IsNearestInteger x.value m := by
  have hnearest := hround.isNearestInteger
  rw [value_eq z, absValue_of_units hz, value_eq x, hsign]
  cases x.isNegative with
  | false => exact ⟨n, by simp, by simpa using hnearest⟩
  | true => exact ⟨-n, by simp, by simpa using hnearest.neg⟩

theorem isNearestIntegral_of_hasFraction (h : x.hasFraction = true) :
    IsNearestIntegral x x.nearest := by
  have hfinite := (hasFraction_iff.mp h).1
  have hle := x.roundHalfEven_le
  have hwhole := whole_lt_of_hasFraction h
  have hround := roundsHalfEven_roundHalfEven x.units Format.one_pos
  rw [nearest, toIntegral_of_hasFraction h]
  generalize roundHalfEven x.units Format.binary64.one = n at hle hround
  obtain ⟨hz, hsign, hunits⟩ := x.fields_integral (show n ≤ 2 ^ 53 by omega)
  rw [Format.one_eq, Nat.cast_pow, Nat.cast_ofNat, ← absValue] at hround
  refine ⟨fun _ => hsign, ?_, fun _ => ⟨isInteger_of_units hz hunits,
    isNearestInteger_value hunits hsign hround⟩, fun _ hzero => ?_⟩
  · rintro (hself | hself | hself | hself)
    · exact absurd h (not_hasFraction_of_isInteger (isInteger_of_isZero hself))
    · rw [isFinite_eq_false (Or.inl hself)] at hfinite
      exact absurd hfinite Bool.false_ne_true
    · rw [isFinite_eq_false (Or.inr (isNan_of_isQuietNan hself))] at hfinite
      exact absurd hfinite Bool.false_ne_true
    · exact absurd h (not_hasFraction_of_isInteger hself)
  · rw [isZero_iff] at hzero
    apply ext_fields
    · rw [hsign]
      cases x.isNegative <;> rfl
    · rw [hzero]
      cases x.isNegative <;> rfl

theorem isNearestIntegral_quieted (h : ¬ x.hasFraction = true) :
    IsNearestIntegral x x.quieted := by
  constructor
  case sign => exact fun _ => isNegative_quieted x
  case unchanged =>
    rintro (hself | hself | hself | hself)
    · exact quieted_of_isFinite (isFinite_of_isZero hself)
    · exact quieted_of_not_isNan (isNan_of_isInfinite hself)
    · exact quieted_of_isQuiet fun _ => hself
    · exact quieted_of_isFinite (isFinite_of_isInteger hself)
  case nearest =>
    intro hfinite
    have hinteger := isInteger_of_not_hasFraction hfinite h
    have hunits := units_of_isInteger hinteger
    rw [quieted_of_isFinite hfinite]
    refine ⟨hinteger, isNearestInteger_value hunits rfl ?_⟩
    rw [absValue_of_units hunits]
    exact roundsHalfEven_natCast x.whole
  case zero =>
    intro hfinite hzero
    rw [quieted_of_isFinite hfinite] at hzero ⊢
    rcases isZero_iff_eq.mp hzero with rfl | rfl <;> decide

theorem isNearestIntegral_of_nearest (x : Binary64) : IsNearestIntegral x x.nearest := by
  by_cases h : x.hasFraction = true
  · exact isNearestIntegral_of_hasFraction h
  · rw [nearest, toIntegral_of_not_hasFraction h]
    exact isNearestIntegral_quieted h

end Binary64

end WasmFloat
