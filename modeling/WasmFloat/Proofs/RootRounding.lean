import Mathlib.Analysis.Real.Sqrt
import WasmFloat.Binary64.Arithmetic
import WasmFloat.Proofs.Order
import WasmFloat.Proofs.SquareRoot

/-!
Correct rounding of square roots. The root is placed between the midpoints on
either side of the chosen pattern by comparing squares. No value is the square of a
midpoint, so nothing is ever tied.
-/

namespace WasmFloat

/-- With its twos taken out, an odd number is no more than a number that it equals. -/
theorem odd_le_of_mul_two_pow_eq {odd m a b : ℕ} (hodd : odd % 2 = 1)
    (h : odd * 2 ^ a = m * 2 ^ b) : odd ≤ m := by
  rcases Nat.le_total a b with hle | hle
  · obtain ⟨twos, rfl⟩ := Nat.exists_eq_add_of_le hle
    have hcancel : odd = m * 2 ^ twos := by
      apply Nat.eq_of_mul_eq_mul_right (Nat.two_pow_pos a)
      rw [h, Nat.add_comm a, Nat.pow_add, Nat.mul_assoc]
    cases twos with
    | zero => omega
    | succ twos =>
        rw [Nat.pow_succ, ← Nat.mul_assoc] at hcancel
        omega
  · obtain ⟨twos, rfl⟩ := Nat.exists_eq_add_of_le hle
    have hcancel : odd * 2 ^ twos = m := by
      apply Nat.eq_of_mul_eq_mul_right (Nat.two_pow_pos b)
      rw [← h, Nat.add_comm b, Nat.pow_add, Nat.mul_assoc]
    rw [← hcancel]
    exact Nat.le_mul_of_pos_right _ (Nat.two_pow_pos twos)

namespace Format

/-- The root of `square` lies strictly between the midpoints on either side of the
pattern. -/
structure IsNearestRoot (F : Format) (square pattern : ℕ) : Prop where
  above : ∀ other, pattern < other → 4 * square < (F.units pattern + F.units other) ^ 2
  below : ∀ other, other < pattern → (F.units pattern + F.units other) ^ 2 < 4 * square

section Excess

variable (F : Format) {square excess kept : ℕ}

/-- Rounding down is decided by the midpoint above; the pattern itself does not
exceed the root. -/
theorem isNearestRoot_down (hlow : excess = 0 ∨ F.hiddenBit ≤ kept)
    (hhigh : kept < 2 * F.hiddenBit) (hfloor : (kept * 2 ^ excess) ^ 2 ≤ square)
    (hmid : 4 * square < ((2 * kept + 1) * 2 ^ excess) ^ 2) :
    F.IsNearestRoot square (excess * F.hiddenBit + kept) := by
  have hunits := F.units_add excess hlow hhigh.le
  have hnext := F.units_add excess
    (show excess = 0 ∨ F.hiddenBit ≤ kept + 1 by omega) hhigh
  constructor
  · intro other hlt
    have hmono : F.units (excess * F.hiddenBit + (kept + 1)) ≤ F.units other :=
      F.units_strictMono.monotone hlt
    refine hmid.trans_le (Nat.pow_le_pow_left ?_ 2)
    rw [hnext] at hmono
    rw [hunits]
    linarith
  · intro other hlt
    have hmono := F.units_strictMono hlt
    calc (F.units (excess * F.hiddenBit + kept) + F.units other) ^ 2
        < (2 * (kept * 2 ^ excess)) ^ 2 := Nat.pow_lt_pow_left (by omega) (by decide)
      _ = 4 * (kept * 2 ^ excess) ^ 2 := by ring
      _ ≤ 4 * square := Nat.mul_le_mul_left 4 hfloor

/-- Rounding up is decided by the midpoint below; the pattern itself exceeds the
root. -/
theorem isNearestRoot_up (hlow : excess = 0 ∨ F.hiddenBit ≤ kept)
    (hhigh : kept < 2 * F.hiddenBit) (hceil : square < ((kept + 1) * 2 ^ excess) ^ 2)
    (hmid : ((2 * kept + 1) * 2 ^ excess) ^ 2 < 4 * square) :
    F.IsNearestRoot square (excess * F.hiddenBit + (kept + 1)) := by
  have hunits := F.units_add excess
    (show excess = 0 ∨ F.hiddenBit ≤ kept + 1 by omega) hhigh
  have hprevious := F.units_add excess hlow hhigh.le
  constructor
  · intro other hlt
    have hmono := F.units_strictMono hlt
    calc 4 * square
        < 4 * ((kept + 1) * 2 ^ excess) ^ 2 := Nat.mul_lt_mul_of_pos_left hceil (by decide)
      _ = (2 * ((kept + 1) * 2 ^ excess)) ^ 2 := by ring
      _ ≤ (F.units (excess * F.hiddenBit + (kept + 1)) + F.units other) ^ 2 :=
          Nat.pow_le_pow_left (by omega) 2
  · intro other hlt
    have hmono : F.units other ≤ F.units (excess * F.hiddenBit + kept) :=
      F.units_strictMono.monotone (Nat.le_of_lt_succ hlt)
    refine (Nat.pow_le_pow_left ?_ 2).trans_lt hmid
    rw [hprevious] at hmono
    rw [hunits]
    linarith

end Excess

/-- Roots of values reach into the binade of the hidden bit, however small the
value. -/
theorem hiddenBit_le_floorSqrt {units : ℕ} (hpos : 0 < units) :
    binary64.hiddenBit ≤ floorSqrt ((units * binary64.one) >>>
      (2 * binary64.excessBits (floorSqrt (units * binary64.one)))) := by
  have hroot : 2 ^ 537 ≤ floorSqrt (units * binary64.one) := by
    apply le_floorSqrt
    have hone : 2 ^ 537 * 2 ^ 537 = binary64.one := by
      rw [one_eq, show 1074 = 537 + 537 from rfl, pow_add]
    rw [hone]
    exact Nat.le_mul_of_pos_left _ hpos
  obtain ⟨hlow, hhigh⟩ := binary64.excessBits_bounds (floorSqrt (units * binary64.one))
  have hsquare := floorSqrt_mul_self_le (units * binary64.one)
  generalize binary64.excessBits (floorSqrt (units * binary64.one)) = excess at hlow hhigh ⊢
  have hreach : binary64.hiddenBit * 2 ^ excess ≤ floorSqrt (units * binary64.one) := by
    refine hlow.resolve_left fun hzero => ?_
    have hshort : 2 ^ 53 ≤ 2 ^ 537 := pow_le_pow_right₀ (by decide) (by decide)
    rw [hzero, show 2 * binary64.hiddenBit * 2 ^ 0 = 2 ^ 53 from rfl] at hhigh
    exact absurd hhigh (hshort.trans hroot).not_gt
  apply le_floorSqrt
  rw [Nat.shiftRight_eq_div_pow, Nat.le_div_iff_mul_le (Nat.two_pow_pos _)]
  calc binary64.hiddenBit * binary64.hiddenBit * 2 ^ (2 * excess)
      = binary64.hiddenBit * 2 ^ excess * (binary64.hiddenBit * 2 ^ excess) := by
        rw [Nat.two_mul, Nat.pow_add]
        ring
    _ ≤ units * binary64.one := (Nat.mul_self_le_mul_self hreach).trans hsquare

/-- A midpoint of a root has one bit more than a pattern, so its square has too many
for a value. -/
theorem midpoint_sq_ne (pattern excess : ℕ) {kept : ℕ}
    (hkept : binary64.hiddenBit ≤ kept) :
    ((2 * kept + 1) * 2 ^ excess) ^ 2 ≠
      4 * (binary64.units pattern * binary64.one) := by
  intro htie
  have hhidden : binary64.hiddenBit = 2 ^ 52 := rfl
  obtain ⟨binade, digits, rfl, hlow, hhigh⟩ := binary64.exists_excess pattern
  rw [binary64.units_add binade hlow hhigh.le, one_eq] at htie
  have hodd : (2 * kept + 1) ^ 2 % 2 = 1 := by
    rw [Nat.pow_mod, show (2 * kept + 1) % 2 = 1 by omega]
  have hbits : (2 * kept + 1) ^ 2 * 2 ^ (excess * 2) =
      digits * 2 ^ (2 + binade + 1074) := by
    rw [pow_mul, ← mul_pow, htie, pow_add, pow_add]
    generalize 2 ^ 1074 = scale
    ring
  have hle := odd_le_of_mul_two_pow_eq hodd hbits
  have hsquare : 2 * kept + 1 ≤ (2 * kept + 1) ^ 2 := Nat.le_self_pow (by decide) _
  omega

theorem isNearestRoot_nearestSqrt {pattern : ℕ} (hpos : 0 < pattern) :
    binary64.IsNearestRoot (binary64.units pattern * binary64.one)
      (binary64.nearestSqrt (binary64.units pattern)) := by
  have hunits : 0 < binary64.units pattern := by
    rw [← binary64.units_zero]
    exact binary64.units_strictMono hpos
  have hlow := hiddenBit_le_floorSqrt hunits
  have hhigh := binary64.floorSqrt_shiftRight_lt (binary64.units pattern * binary64.one)
  obtain ⟨hfloor, hceil⟩ := floorSqrt_shiftRight_bounds
    (binary64.units pattern * binary64.one)
    (binary64.excessBits (floorSqrt (binary64.units pattern * binary64.one)))
  unfold nearestSqrt
  simp only [← excessBits.eq_1]
  generalize binary64.excessBits (floorSqrt (binary64.units pattern * binary64.one)) =
    excess at hlow hhigh hfloor hceil ⊢
  generalize floorSqrt ((binary64.units pattern * binary64.one) >>> (2 * excess)) =
    kept at hlow hhigh hfloor hceil ⊢
  have hhalfway : ((2 * kept + 1) * (2 * kept + 1)) <<< (2 * excess) =
      ((2 * kept + 1) * 2 ^ excess) ^ 2 := by
    rw [Nat.shiftLeft_eq, Nat.mul_comm 2 excess, Nat.pow_mul]
    ring
  have hne := midpoint_sq_ne pattern excess hlow
  rw [hhalfway]
  split
  · rename_i hup
    exact binary64.isNearestRoot_up (Or.inr hlow) hhigh hceil hup
  · rename_i hdown
    exact binary64.isNearestRoot_down (Or.inr hlow) hhigh hfloor (by omega)

section Real

variable {F : Format} {square pattern : ℕ}

theorem IsNearestRoot.sqrt_lt (h : F.IsNearestRoot square pattern) {other : ℕ}
    (hlt : pattern < other) :
    2 * Real.sqrt square < F.units pattern + F.units other := by
  have hsquare : (4 * square : ℝ) < (F.units pattern + F.units other) ^ 2 := by
    exact_mod_cast h.above other hlt
  have hmono : (0 : ℝ) < F.units other := by
    exact_mod_cast (Nat.zero_le _).trans_lt (F.units_strictMono hlt)
  have hroot : Real.sqrt square < (F.units pattern + F.units other) / 2 := by
    rw [Real.sqrt_lt' (by positivity), div_pow]
    linarith
  linarith

theorem IsNearestRoot.lt_sqrt (h : F.IsNearestRoot square pattern) {other : ℕ}
    (hlt : other < pattern) :
    F.units pattern + F.units other < 2 * Real.sqrt square := by
  have hsquare : ((F.units pattern + F.units other) ^ 2 : ℝ) < 4 * square := by
    exact_mod_cast h.below other hlt
  have hroot : (F.units pattern + F.units other) / 2 < Real.sqrt square := by
    rw [Real.lt_sqrt (by positivity), div_pow]
    linarith
  linarith

/-- Every other pattern is strictly further from the root. -/
theorem IsNearestRoot.closest (h : F.IsNearestRoot square pattern) {other : ℕ}
    (hne : other ≠ pattern) :
    |(F.units pattern : ℝ) - Real.sqrt square| <
      |(F.units other : ℝ) - Real.sqrt square| := by
  rcases Nat.lt_or_gt_of_ne hne with hlt | hgt
  · have hmid := h.lt_sqrt hlt
    have hunits : (F.units other : ℝ) < F.units pattern := by
      exact_mod_cast F.units_strictMono hlt
    rw [abs_of_neg (by linarith : (F.units other : ℝ) - Real.sqrt square < 0), abs_lt]
    exact ⟨by linarith, by linarith⟩
  · have hmid := h.sqrt_lt hgt
    have hunits : (F.units pattern : ℝ) < F.units other := by
      exact_mod_cast F.units_strictMono hgt
    rw [abs_of_pos (by linarith : 0 < (F.units other : ℝ) - Real.sqrt square), abs_lt]
    exact ⟨by linarith, by linarith⟩

end Real

theorem IsNearestRoot.pos {square pattern : ℕ} (h : binary64.IsNearestRoot square pattern)
    (hsquare : 0 < square) : 0 < pattern := by
  by_contra hzero
  have habove := h.above 1 (by omega)
  rw [Nat.eq_zero_of_not_pos hzero, units_zero,
    units_of_lt (show 1 < binary64.hiddenBit by decide)] at habove
  omega

end Format

namespace Binary64

/-- A positive finite value that is strictly closer than any other finite value to the
square root of `q`. -/
structure IsNearestRoot (r : Binary64) (q : ℚ) : Prop where
  isFinite : r.isFinite = true
  positive : 0 < r.value
  closest : ∀ z : Binary64, z.isFinite = true → z ≠ r →
    |(r.value : ℝ) - Real.sqrt q| < |(z.value : ℝ) - Real.sqrt q|

def NoRoot (x : Binary64) : Prop :=
  x.isNan = true ∨ (x.isNegative = true ∧ x.isZero = false)

structure IsSquareRoot (x r : Binary64) : Prop where
  nan_iff : r = nan ↔ NoRoot x
  unchanged : x = zero ∨ x = negZero ∨ x = infinity → r = x
  nearest : x.isFinite = true → 0 < x.value → r.IsNearestRoot x.value

theorem sqrt_value {x : Binary64} (h : x.isNegative = false) :
    Real.sqrt x.value =
      Real.sqrt ((x.units * Format.binary64.one : ℕ) : ℝ) / 2 ^ 1074 := by
  have hpos : (0 : ℝ) < 2 ^ 1074 := pow_pos (by norm_num) _
  have hsquare : ((x.value : ℚ) : ℝ) =
      ((x.units * Format.binary64.one : ℕ) : ℝ) / (2 ^ 1074) ^ 2 := by
    simp only [value_of_not_isNegative h, Format.one_eq, Rat.cast_div, Rat.cast_natCast,
      Rat.cast_pow, Rat.cast_ofNat, Nat.cast_mul, Nat.cast_pow, Nat.cast_ofNat]
    generalize (2 : ℝ) ^ 1074 = scale at hpos ⊢
    field_simp
  rw [hsquare, Real.sqrt_div' _ (sq_nonneg _), Real.sqrt_sq hpos.le]

theorem cast_value {x : Binary64} (h : x.isNegative = false) :
    ((x.value : ℚ) : ℝ) = x.units / 2 ^ 1074 := by
  simp only [value_of_not_isNegative h, Rat.cast_div, Rat.cast_natCast, Rat.cast_pow,
    Rat.cast_ofNat]

theorem isNearestRoot_of_magnitude {x r : Binary64} (hfinite : r.isFinite = true)
    (hx : x.isNegative = false) (hsign : r.isNegative = false) (hpos : 0 < r.magnitude)
    (h : Format.binary64.IsNearestRoot (x.units * Format.binary64.one) r.magnitude) :
    r.IsNearestRoot x.value := by
  have hscale : (0 : ℝ) < 2 ^ 1074 := pow_pos (by norm_num) _
  have hunits : 0 < r.units := by
    rw [units, ← Format.binary64.units_zero]
    exact Format.binary64.units_strictMono hpos
  refine ⟨hfinite, ?_, fun z _ hne => ?_⟩
  · rw [value_of_not_isNegative hsign]
    exact div_pos (by exact_mod_cast hunits) (pow_pos (by norm_num) _)
  have hdistance : ∀ u : ℝ,
      |u / 2 ^ 1074 - Real.sqrt x.value| =
        |u - Real.sqrt ((x.units * Format.binary64.one : ℕ) : ℝ)| / 2 ^ 1074 := by
    intro u
    rw [sqrt_value hx, ← sub_div, abs_div, abs_of_pos hscale]
  rw [cast_value hsign, hdistance]
  cases hz : z.isNegative with
  | false =>
      rw [cast_value hz, hdistance]
      apply div_lt_div_of_pos_right _ hscale
      apply h.closest
      intro hsame
      exact hne (ext_fields (hz.trans hsign.symm) hsame)
  | true =>
      have hcast : ((z.value : ℚ) : ℝ) = -(z.units : ℝ) / 2 ^ 1074 := by
        simp only [value_eq, hz, if_true, absValue, Rat.cast_neg, Rat.cast_div,
          Rat.cast_natCast, Rat.cast_pow, Rat.cast_ofNat, neg_div]
      rw [hcast, hdistance]
      apply div_lt_div_of_pos_right _ hscale
      have hzero := h.closest hpos.ne
      have hroot := Real.sqrt_nonneg ((x.units * Format.binary64.one : ℕ) : ℝ)
      have hsize : (0 : ℝ) ≤ z.units := Nat.cast_nonneg _
      generalize Real.sqrt ((x.units * Format.binary64.one : ℕ) : ℝ) = root at hzero hroot ⊢
      rw [Format.units_zero, Nat.cast_zero, zero_sub, abs_neg, abs_of_nonneg hroot] at hzero
      rw [abs_of_nonpos (by linarith : -(z.units : ℝ) - root ≤ 0)]
      refine hzero.trans_le ?_
      linarith

theorem isNearestRoot_sqrt {x : Binary64} (hfinite : x.isFinite = true)
    (hpos : 0 < x.value) : (sqrt x).IsNearestRoot x.value := by
  obtain ⟨hsign, hzero⟩ := value_pos_iff.mp hpos
  obtain ⟨hinfinite, hnan⟩ := isInfinite_of_isFinite hfinite
  have hroot : sqrt x = ofMagnitude false (Format.binary64.nearestSqrt x.units) := by
    simp [sqrt, hnan, hzero, hsign, hinfinite]
  have hpattern : 0 < x.magnitude := by
    rw [Nat.pos_iff_ne_zero, Ne, ← isZero_iff, hzero]
    exact Bool.false_ne_true
  have hsquare : 0 < x.units * Format.binary64.one := by
    apply Nat.mul_pos _ Format.one_pos
    rwa [Nat.pos_iff_ne_zero, Ne, units_eq_zero_iff, Bool.not_eq_true]
  have hbound : Format.binary64.nearestSqrt x.units < Format.binary64.infinity :=
    Format.nearestSqrt_lt_infinity
      (Format.binary64.units_strictMono ((isFinite_iff x).mp hfinite))
  have hnearest : Format.binary64.IsNearestRoot (x.units * Format.binary64.one)
      (Format.binary64.nearestSqrt x.units) := Format.isNearestRoot_nearestSqrt hpattern
  have hword := hbound.trans infinity_lt
  have hmagnitude := magnitude_ofMagnitude false hword
  rw [hroot]
  rw [← hmagnitude] at hbound hnearest
  exact isNearestRoot_of_magnitude ((isFinite_iff _).mpr hbound) hsign
    (isNegative_ofMagnitude false hword) (hnearest.pos hsquare) hnearest

theorem NoRoot.sqrt_eq_nan {x : Binary64} (h : NoRoot x) : sqrt x = nan := by
  rcases h with hnan | ⟨hsign, hzero⟩
  · rw [sqrt, if_pos hnan]
  · simp [sqrt, hsign, hzero]

theorem isNan_sqrt {x : Binary64} (h : ¬ NoRoot x) : (sqrt x).isNan = false := by
  simp only [NoRoot, not_or, not_and, Bool.not_eq_true, Bool.not_eq_false] at h
  obtain ⟨hnan, hnegative⟩ := h
  cases hzero : x.isZero with
  | true =>
      have hroot : sqrt x = x := by simp [sqrt, hnan, hzero]
      rw [hroot, hnan]
  | false =>
      have hsign : x.isNegative = false := by simpa [hzero] using hnegative
      cases hinfinite : x.isInfinite with
      | true =>
          have hroot : sqrt x = x := by simp [sqrt, hnan, hsign, hinfinite]
          rw [hroot, hnan]
      | false =>
          have hnearest := isNearestRoot_sqrt
            (isFinite_of_not (by simp [hnan]) (by simp [hinfinite]))
            (value_pos_iff.mpr ⟨hsign, hzero⟩)
          exact (isInfinite_of_isFinite hnearest.isFinite).2

/-- Every value has the square root it should have: zeros and positive infinity keep
their bits, and a positive number gets the one value nearest to the real root. -/
theorem isSquareRoot_sqrt (x : Binary64) : IsSquareRoot x (sqrt x) where
  nan_iff := eq_nan_iff NoRoot.sqrt_eq_nan isNan_sqrt
  unchanged h := by
    rcases h with rfl | rfl | rfl <;> decide
  nearest := isNearestRoot_sqrt

end Binary64

end WasmFloat
