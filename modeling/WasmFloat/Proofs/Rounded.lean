import WasmFloat.Binary64.Arithmetic
import WasmFloat.Proofs.Nearest

namespace WasmFloat.Binary64

theorem isNan_nan : nan.isNan = true := by decide

theorem ne_nan {x : Binary64} (h : x.isNan = false) : x ≠ nan := by
  rintro rfl
  rw [isNan_nan] at h
  exact absurd h.symm Bool.false_ne_true

/-- An operation that gives the canonical NaN where it is undefined and no NaN
elsewhere. -/
theorem eq_nan_iff {x : Binary64} {undefined : Prop} (hnan : undefined → x = nan)
    (hvalue : ¬ undefined → x.isNan = false) : x = nan ↔ undefined := by
  refine ⟨fun h => ?_, hnan⟩
  by_contra hdefined
  exact ne_nan (hvalue hdefined) h

theorem ext_infinite {x y : Binary64} (hx : x.isInfinite = true)
    (hy : y.isInfinite = true) (hsign : x.isNegative = y.isNegative) : x = y := by
  rw [isInfinite_iff] at hx hy
  exact ext_fields hsign (hx.trans hy.symm)

theorem isNan_ofMagnitude (negative : Bool) {pattern : ℕ}
    (h : pattern ≤ Format.binary64.infinity) :
    (ofMagnitude negative pattern).isNan = false := by
  rw [← Bool.not_eq_true, isNan_iff, magnitude_ofMagnitude _ (h.trans_lt infinity_lt)]
  exact h.not_gt

theorem isNegative_rounded (negative : Bool) (numerator denominator : ℕ) :
    (rounded negative numerator denominator).isNegative = negative :=
  isNegative_ofMagnitude _ ((Nat.min_le_right _ _).trans_lt infinity_lt)

theorem ofMagnitude_not (negative : Bool) (pattern : ℕ) :
    ofMagnitude (!negative) pattern = (ofMagnitude negative pattern).neg := by
  cases negative <;> simp [ofMagnitude]

theorem rounded_not (negative : Bool) (numerator denominator : ℕ) :
    rounded (!negative) numerator denominator =
      (rounded negative numerator denominator).neg :=
  ofMagnitude_not _ _

/-- A size rounded under a sign. From the midpoint above the largest finite
value on it is infinite. -/
structure RoundsTo (x : Binary64) (negative : Bool) (q : ℚ) : Prop where
  sign : x.isNegative = negative
  overflow : (2 : ℚ) ^ 1024 - 2 ^ 970 ≤ q → x.isInfinite = true
  nearest : q < (2 : ℚ) ^ 1024 - 2 ^ 970 → x.IsNearest q

theorem RoundsTo.isNan {x : Binary64} {negative : Bool} {q : ℚ}
    (h : x.RoundsTo negative q) : x.isNan = false := by
  rcases le_or_gt ((2 : ℚ) ^ 1024 - 2 ^ 970) q with hlarge | hsmall
  · exact isNan_of_isInfinite (h.overflow hlarge)
  · exact (isInfinite_of_isFinite (h.nearest hsmall).isFinite).2

/-- A pattern past infinity's is cut back to it. -/
theorem roundsTo_nearestMagnitude (negative : Bool) {q : ℚ} (hq : 0 ≤ q) :
    (ofMagnitude negative
      (Min.min (nearestMagnitude q) Format.binary64.infinity)).RoundsTo negative q := by
  have hover := infinity_le_nearestMagnitude_iff hq
  have hword : Min.min (nearestMagnitude q) Format.binary64.infinity < 2 ^ 63 :=
    (Nat.min_le_right _ _).trans_lt infinity_lt
  have hmagnitude := magnitude_ofMagnitude negative hword
  constructor
  · exact isNegative_ofMagnitude negative hword
  · intro hlarge
    rw [isInfinite_iff, hmagnitude]
    exact Nat.min_eq_right (hover.mpr hlarge)
  · intro hsmall
    have hbelow : nearestMagnitude q < Format.binary64.infinity :=
      Nat.lt_of_not_le fun hle => absurd (hover.mp hle) hsmall.not_ge
    rw [Nat.min_eq_left hbelow.le] at hmagnitude ⊢
    apply isNearest_of_magnitude
    · rw [isFinite_iff, hmagnitude]
      exact hbelow
    · rw [hmagnitude]
      exact isNearest_nearestMagnitude hq

theorem roundsTo_rounded (negative : Bool) (numerator : ℕ) {denominator : ℕ}
    (h : 0 < denominator) {q : ℚ}
    (hq : q * 2 ^ 1074 = (numerator : ℚ) / denominator) :
    (rounded negative numerator denominator).RoundsTo negative q := by
  have hscaled : (0 : ℚ) ≤ q * 2 ^ 1074 := by
    rw [hq]
    positivity
  have hnonneg : 0 ≤ q := nonneg_of_mul_nonneg_left hscaled (pow_pos (by decide) _)
  have hnearest := Format.binary64.isNearest_nearest (by decide) numerator h
  rw [← hq] at hnearest
  rw [rounded, hnearest.eq_nearestTo (by decide) hscaled]
  exact roundsTo_nearestMagnitude negative hnonneg

/-- No finite value is closer to `q`, and of two that are equally close it is the
one with bit zero clear. -/
structure IsNearestValue (x : Binary64) (q : ℚ) : Prop where
  isFinite : x.isFinite = true
  closest : ∀ y : Binary64, y.isFinite = true → |x.value - q| ≤ |y.value - q|
  even : ∀ y : Binary64, y.isFinite = true → y.value ≠ x.value →
    |x.value - q| = |y.value - q| → x.bits &&& 1 = 0

theorem absValue_nonneg (x : Binary64) : 0 ≤ x.absValue := by
  rw [absValue]
  positivity

theorem value_eq (x : Binary64) :
    x.value = if x.isNegative then -x.absValue else x.absValue := by
  rw [value, signedUnits, absValue]
  split
  · rw [Int.cast_neg, Int.cast_natCast, neg_div]
  · rw [Int.cast_natCast]

theorem value_of_not_isNegative {x : Binary64} (h : x.isNegative = false) :
    x.value = x.units / 2 ^ 1074 := by
  rw [value_eq, h, if_neg Bool.false_ne_true, absValue]

theorem value_pos_iff {x : Binary64} :
    0 < x.value ↔ x.isNegative = false ∧ x.isZero = false := by
  cases hsign : x.isNegative with
  | true =>
      rw [value_eq, hsign, if_pos rfl]
      have hsize := x.absValue_nonneg
      exact ⟨fun h => by linarith, fun h => (nomatch h.1)⟩
  | false =>
      rw [value_of_not_isNegative hsign, div_pos_iff_of_pos_right (pow_pos (by norm_num) _),
        Nat.cast_pos, Nat.pos_iff_ne_zero, Ne, units_eq_zero_iff, Bool.not_eq_true]
      exact ⟨fun h => ⟨rfl, h⟩, fun h => h.2⟩

theorem abs_value (x : Binary64) : |x.value| = x.absValue := by
  rw [value_eq]
  split
  · rw [abs_neg, abs_of_nonneg x.absValue_nonneg]
  · rw [abs_of_nonneg x.absValue_nonneg]

theorem abs_value_sub {x : Binary64} {q : ℚ}
    (hsign : q ≠ 0 → x.isNegative = decide (q < 0)) :
    |x.value - q| = |x.absValue - (|q|)| := by
  rcases lt_trichotomy q 0 with hneg | rfl | hpos
  · rw [value_eq, hsign hneg.ne, decide_eq_true hneg, if_pos rfl, abs_of_neg hneg,
      ← abs_neg]
    congr 1
    ring
  · rw [sub_zero, abs_zero, sub_zero, abs_value, abs_of_nonneg x.absValue_nonneg]
  · rw [value_eq, hsign hpos.ne', decide_eq_false hpos.not_gt,
      if_neg Bool.false_ne_true, abs_of_pos hpos]

theorem absValue_zero : zero.absValue = 0 := by
  have hmagnitude : zero.magnitude = 0 := rfl
  rw [absValue, units, hmagnitude, Format.units_zero, Nat.cast_zero, zero_div]

/-- A value on the side of `q` is as close to it as the sizes are, and one on the
other side is no closer than that. -/
theorem IsNearest.value {x : Binary64} {q : ℚ}
    (hsign : q ≠ 0 → x.isNegative = decide (q < 0)) (h : x.IsNearest |q|) :
    x.IsNearestValue q := by
  have hsize := abs_value_sub hsign
  have hside : ∀ y : Binary64, |y.absValue - (|q|)| ≤ |y.value - q| := by
    intro y
    rw [← abs_value]
    exact abs_abs_sub_abs_le _ _
  refine ⟨h.isFinite, fun y hy => ?_, fun y hy hne heq => ?_⟩
  · rw [hsize]
    exact (h.closest y hy).trans (hside y)
  · by_cases hsame : y.absValue = x.absValue
    · -- Opposite values are equally close to zero only, and zero is its own nearest.
      rw [← abs_value, ← abs_value] at hsame
      have hopposite : y.value = -x.value :=
        (abs_eq_abs.mp hsame).resolve_left hne
      have hzero : q = 0 := by
        rw [hopposite] at heq hne
        rcases abs_eq_abs.mp heq with hleft | hright
        · exact absurd (by linarith) hne
        · linarith
      have hclose := h.closest zero (by decide)
      rw [absValue_zero, hzero, abs_zero, sub_zero, sub_zero, abs_zero,
        abs_nonpos_iff, ← abs_value, abs_eq_zero] at hclose
      rw [hopposite, hclose, neg_zero] at hne
      exact absurd rfl hne
    · apply h.even y hy hsame
      apply le_antisymm (h.closest y hy)
      rw [← hsize, heq]
      exact hside y

end WasmFloat.Binary64
