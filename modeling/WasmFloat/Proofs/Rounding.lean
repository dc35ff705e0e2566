import Mathlib.Algebra.Order.Archimedean.Basic
import Mathlib.Data.Rat.Cast.Order
import Mathlib.Order.Monotone.Basic
import Mathlib.Tactic.FieldSimp
import Mathlib.Tactic.Linarith
import Mathlib.Tactic.Positivity
import WasmFloat.Format.Rounding

namespace WasmFloat

/-- The integer `k` is within one half of `q`, and even when it is exactly one
half away. -/
structure RoundsHalfEven (q : ℚ) (k : ℕ) : Prop where
  le_above : 2 * q ≤ 2 * k + 1
  le_below : 2 * (k : ℚ) ≤ 2 * q + 1
  even_above : 2 * q = 2 * k + 1 → k % 2 = 0
  even_below : 2 * (k : ℚ) = 2 * q + 1 → k % 2 = 0

theorem RoundsHalfEven.le_of_le {q : ℚ} {k bound : ℕ} (h : RoundsHalfEven q k)
    (hle : q ≤ bound) : k ≤ bound := by
  have hcast : (2 * k : ℚ) ≤ 2 * bound + 1 := by linarith [h.le_below]
  have hnat : 2 * k ≤ 2 * bound + 1 := by exact_mod_cast hcast
  omega

theorem RoundsHalfEven.ge_of_ge {q : ℚ} {k bound : ℕ} (h : RoundsHalfEven q k)
    (hge : (bound : ℚ) ≤ q) : bound ≤ k := by
  have hcast : (2 * bound : ℚ) ≤ 2 * k + 1 := by linarith [h.le_above]
  have hnat : 2 * bound ≤ 2 * k + 1 := by exact_mod_cast hcast
  omega

theorem RoundsHalfEven.down {kept : ℕ} {part : ℚ} (hnonneg : 0 ≤ part)
    (h : 2 * part < 1 ∨ (2 * part = 1 ∧ kept % 2 = 0)) :
    RoundsHalfEven (kept + part) kept := by
  have hle : 2 * part ≤ 1 := by
    rcases h with hlt | ⟨heq, _⟩
    · exact hlt.le
    · exact heq.le
  refine ⟨by linarith, by linarith, fun htie => ?_, fun htie => by linarith⟩
  rcases h with hlt | ⟨_, heven⟩
  · linarith
  · exact heven

theorem RoundsHalfEven.up {kept : ℕ} {part : ℚ} (hlt : part < 1)
    (h : 1 < 2 * part ∨ (2 * part = 1 ∧ kept % 2 = 1)) :
    RoundsHalfEven (kept + part) (kept + 1) := by
  have hge : 1 ≤ 2 * part := by
    rcases h with hgt | ⟨heq, _⟩
    · exact hgt.le
    · exact heq.ge
  have hcast : ((kept + 1 : ℕ) : ℚ) = kept + 1 := Nat.cast_succ kept
  refine ⟨?_, ?_, fun htie => ?_, fun htie => ?_⟩
  · rw [hcast]
    linarith
  · rw [hcast]
    linarith
  · rw [hcast] at htie
    linarith
  · rw [hcast] at htie
    rcases h with hgt | ⟨_, hodd⟩
    · linarith
    · omega

theorem roundsHalfEven_roundHalfEven (numerator : ℕ) {denominator : ℕ}
    (h : 0 < denominator) :
    RoundsHalfEven ((numerator : ℚ) / denominator)
      (roundHalfEven numerator denominator) := by
  have hpos : (0 : ℚ) < denominator := by exact_mod_cast h
  have hlt := Nat.mod_lt numerator h
  have hsplit : (numerator : ℚ) / denominator = (numerator / denominator : ℕ) +
      (numerator % denominator : ℕ) / denominator := by
    have hwhole : (numerator : ℚ) = denominator * (numerator / denominator : ℕ) +
        (numerator % denominator : ℕ) := by
      exact_mod_cast (Nat.div_add_mod numerator denominator).symm
    rw [add_div' _ _ _ hpos.ne', mul_comm, ← hwhole]
  rw [hsplit]
  unfold roundHalfEven
  simp only
  generalize numerator / denominator = quotient
  generalize numerator % denominator = remainder at hlt
  have htwice : 2 * ((remainder : ℚ) / denominator) =
      (2 * remainder : ℕ) / denominator := by
    rw [Nat.cast_mul, Nat.cast_ofNat, mul_div_assoc]
  split
  · rename_i hdown
    apply RoundsHalfEven.down (by positivity)
    rw [htwice, div_lt_one hpos, div_eq_one_iff_eq hpos.ne']
    exact_mod_cast hdown
  · rename_i hup
    apply RoundsHalfEven.up
    · rw [div_lt_one hpos]
      exact_mod_cast hlt
    · rw [htwice, one_lt_div hpos, div_eq_one_iff_eq hpos.ne']
      norm_cast
      omega

namespace Format

theorem hiddenBit_eq (F : Format) : F.hiddenBit = 2 ^ F.fractionBits := by
  rw [hiddenBit, Nat.shiftLeft_eq, Nat.one_mul]

theorem hiddenBit_pos (F : Format) : 0 < F.hiddenBit := by
  rw [hiddenBit_eq]
  exact Nat.two_pow_pos _

theorem hiddenBit_even (F : Format) (h : 0 < F.fractionBits) :
    F.hiddenBit % 2 = 0 := by
  obtain ⟨bits, hbits⟩ : ∃ bits, F.fractionBits = bits + 1 :=
    ⟨F.fractionBits - 1, by omega⟩
  rw [hiddenBit_eq, hbits, Nat.pow_succ, Nat.mul_mod_left]

theorem one_eq : binary64.one = 2 ^ 1074 := by
  have hscale : binary64.unitScale = 1074 := rfl
  rw [one, Nat.one_shiftLeft]
  exact congrArg (2 ^ ·) hscale

theorem one_pos : 0 < binary64.one := by
  rw [one, Nat.one_shiftLeft]
  exact Nat.two_pow_pos _

theorem units_of_lt {F : Format} {pattern : ℕ} (h : pattern < F.hiddenBit) :
    F.units pattern = pattern := by
  rw [units, if_pos h]

/-- A pattern cut into the binades below it and the bits it keeps of its
value. -/
theorem units_add (F : Format) (excess : ℕ) {kept : ℕ}
    (hlow : excess = 0 ∨ F.hiddenBit ≤ kept) (hhigh : kept ≤ 2 * F.hiddenBit) :
    F.units (excess * F.hiddenBit + kept) = kept * 2 ^ excess := by
  have hpos := F.hiddenBit_pos
  by_cases hsmall : kept < F.hiddenBit
  · have hzero : excess = 0 := by omega
    subst hzero
    rw [Nat.zero_mul, Nat.zero_add, units_of_lt hsmall, Nat.pow_zero, Nat.mul_one]
  · have hnormal : ¬ excess * F.hiddenBit + kept < F.hiddenBit := by omega
    rw [units, if_neg hnormal, Nat.shiftLeft_eq]
    rcases Nat.lt_or_ge kept (2 * F.hiddenBit) with hinside | hcarry
    · obtain ⟨fraction, hfraction⟩ : ∃ fraction, kept = F.hiddenBit + fraction :=
        ⟨kept - F.hiddenBit, by omega⟩
      have hsum : excess * F.hiddenBit + kept =
          F.hiddenBit * (excess + 1) + fraction := by
        rw [hfraction]
        ring
      rw [hsum, Nat.mul_add_mod, Nat.mod_eq_of_lt (by omega),
        Nat.mul_add_div hpos, Nat.div_eq_of_lt (by omega), hfraction]
      simp
    · have htwice : kept = 2 * F.hiddenBit := by omega
      have hsum : excess * F.hiddenBit + kept = F.hiddenBit * (excess + 2) := by
        rw [htwice]
        ring
      rw [hsum, Nat.mul_mod_right, Nat.mul_div_cancel_left _ hpos, htwice,
        show excess + 2 - 1 = excess + 1 by omega, Nat.pow_succ]
      ring

theorem exists_excess (F : Format) (pattern : ℕ) :
    ∃ excess kept, pattern = excess * F.hiddenBit + kept ∧
      (excess = 0 ∨ F.hiddenBit ≤ kept) ∧ kept < 2 * F.hiddenBit := by
  have hpos := F.hiddenBit_pos
  have hsplit := Nat.div_add_mod pattern F.hiddenBit
  have hlt := Nat.mod_lt pattern hpos
  by_cases hsmall : pattern < F.hiddenBit
  · exact ⟨0, pattern, by omega, Or.inl rfl, by omega⟩
  · have hfield : 0 < pattern / F.hiddenBit :=
      Nat.div_pos (Nat.le_of_not_lt hsmall) hpos
    obtain ⟨excess, hexcess⟩ : ∃ excess, pattern / F.hiddenBit = excess + 1 :=
      ⟨pattern / F.hiddenBit - 1, by omega⟩
    refine ⟨excess, F.hiddenBit + pattern % F.hiddenBit, ?_, Or.inr (by omega),
      by omega⟩
    rw [hexcess, Nat.mul_add, Nat.mul_one] at hsplit
    rw [Nat.mul_comm excess]
    omega

theorem units_lt_units_succ (F : Format) (pattern : ℕ) :
    F.units pattern < F.units (pattern + 1) := by
  obtain ⟨excess, kept, rfl, hlow, hhigh⟩ := F.exists_excess pattern
  have hlow' : excess = 0 ∨ F.hiddenBit ≤ kept + 1 := by omega
  rw [Nat.add_assoc, F.units_add excess hlow (by omega),
    F.units_add excess hlow' (by omega)]
  exact Nat.mul_lt_mul_of_pos_right (Nat.lt_succ_self kept) (Nat.two_pow_pos _)

theorem units_strictMono (F : Format) : StrictMono F.units :=
  strictMono_nat_of_lt_succ F.units_lt_units_succ

/-- No pattern is closer to `q` units, and of two equally close ones it is the
even one. -/
structure IsNearest (F : Format) (q : ℚ) (pattern : ℕ) : Prop where
  closest : ∀ other, |(F.units pattern : ℚ) - q| ≤ |(F.units other : ℚ) - q|
  even : ∀ other, other ≠ pattern →
    |(F.units pattern : ℚ) - q| = |(F.units other : ℚ) - q| → pattern % 2 = 0

/-- It suffices to compare with the patterns on either side, and there by the
midpoints. -/
theorem isNearest_of_midpoints {F : Format} {q : ℚ} {pattern : ℕ}
    (habove : ∀ other, pattern < other →
      2 * q ≤ F.units pattern + F.units other ∧
        (2 * q = F.units pattern + F.units other → pattern % 2 = 0))
    (hbelow : ∀ other, other < pattern →
      (F.units pattern + F.units other : ℚ) ≤ 2 * q ∧
        (F.units pattern + F.units other = 2 * q → pattern % 2 = 0)) :
    F.IsNearest q pattern := by
  have hside : ∀ other, other ≠ pattern →
      |(F.units pattern : ℚ) - q| ≤ |(F.units other : ℚ) - q| ∧
        (|(F.units pattern : ℚ) - q| = |(F.units other : ℚ) - q| →
          pattern % 2 = 0) := by
    intro other hne
    rcases Nat.lt_or_gt_of_ne hne with hlt | hgt
    · obtain ⟨hmid, htie⟩ := hbelow other hlt
      have hunits : (F.units other : ℚ) < F.units pattern := by
        exact_mod_cast F.units_strictMono hlt
      rw [abs_of_nonpos (by linarith : (F.units other : ℚ) - q ≤ 0)]
      rcases le_total (F.units pattern : ℚ) q with hle | hle
      · rw [abs_of_nonpos (by linarith)]
        exact ⟨by linarith, fun heq => by linarith⟩
      · rw [abs_of_nonneg (by linarith)]
        exact ⟨by linarith, fun heq => htie (by linarith)⟩
    · obtain ⟨hmid, htie⟩ := habove other hgt
      have hunits : (F.units pattern : ℚ) < F.units other := by
        exact_mod_cast F.units_strictMono hgt
      rw [abs_of_nonneg (by linarith : 0 ≤ (F.units other : ℚ) - q)]
      rcases le_total (F.units pattern : ℚ) q with hle | hle
      · rw [abs_of_nonpos (by linarith)]
        exact ⟨by linarith, fun heq => htie (by linarith)⟩
      · rw [abs_of_nonneg (by linarith)]
        exact ⟨by linarith, fun heq => by linarith⟩
  refine ⟨fun other => ?_, fun other hne heq => (hside other hne).2 heq⟩
  by_cases hne : other = pattern
  · rw [hne]
  · exact (hside other hne).1

theorem cast_units_add (F : Format) (excess : ℕ) {kept : ℕ}
    (hlow : excess = 0 ∨ F.hiddenBit ≤ kept) (hhigh : kept ≤ 2 * F.hiddenBit) :
    (F.units (excess * F.hiddenBit + kept) : ℚ) = kept * 2 ^ excess := by
  rw [F.units_add excess hlow hhigh, Nat.cast_mul, Nat.cast_pow, Nat.cast_ofNat]

/-- Above, the next pattern is one bit further, or the number is below the
pattern it has been carried to. -/
theorem le_midpoint_of_excess (F : Format) {scaled : ℚ} {excess kept other : ℕ}
    (hlow : excess = 0 ∨ F.hiddenBit ≤ kept) (hhigh : kept ≤ 2 * F.hiddenBit)
    (hscaled : scaled < 2 * F.hiddenBit) (hkept : RoundsHalfEven scaled kept)
    (hother : excess * F.hiddenBit + kept < other) :
    2 * (scaled * 2 ^ excess) ≤
        F.units (excess * F.hiddenBit + kept) + F.units other ∧
      (2 * (scaled * 2 ^ excess) =
        F.units (excess * F.hiddenBit + kept) + F.units other → kept % 2 = 0) := by
  have hpow : (0 : ℚ) < 2 ^ excess := by positivity
  have hvalue := F.cast_units_add excess hlow hhigh
  rcases Nat.lt_or_ge kept (2 * F.hiddenBit) with hinside | hcarry
  · have hnext := F.cast_units_add excess (show excess = 0 ∨ F.hiddenBit ≤ kept + 1
      by omega) (by omega)
    have hmono : (F.units (excess * F.hiddenBit + (kept + 1)) : ℚ) ≤
        F.units other := by
      exact_mod_cast F.units_strictMono.monotone (by omega)
    have hscale := mul_le_mul_of_nonneg_right hkept.le_above hpow.le
    rw [hvalue]
    rw [hnext, Nat.cast_succ] at hmono
    refine ⟨by linarith, fun htie => hkept.even_above ?_⟩
    apply mul_right_cancel₀ hpow.ne'
    linarith
  · have hlarge : (2 * F.hiddenBit : ℚ) ≤ kept := by exact_mod_cast hcarry
    have hmono : (F.units (excess * F.hiddenBit + kept) : ℚ) < F.units other := by
      exact_mod_cast F.units_strictMono hother
    have hscale := mul_lt_mul_of_pos_right (hscaled.trans_le hlarge) hpow
    rw [hvalue] at hmono ⊢
    exact ⟨by linarith, fun htie => by linarith⟩

/-- Below, the previous pattern is one bit further, or the number is not below
the least pattern of its binade. -/
theorem midpoint_le_of_excess (F : Format) {scaled : ℚ} {excess kept other : ℕ}
    (hlow : excess = 0 ∨ F.hiddenBit ≤ kept) (hhigh : kept ≤ 2 * F.hiddenBit)
    (hscaled : excess = 0 ∨ (F.hiddenBit : ℚ) ≤ scaled)
    (hkept : RoundsHalfEven scaled kept)
    (hother : other < excess * F.hiddenBit + kept) :
    (F.units (excess * F.hiddenBit + kept) + F.units other : ℚ) ≤
        2 * (scaled * 2 ^ excess) ∧
      (F.units (excess * F.hiddenBit + kept) + F.units other =
        2 * (scaled * 2 ^ excess) → kept % 2 = 0) := by
  have hpow : (0 : ℚ) < 2 ^ excess := by positivity
  have hhidden := F.hiddenBit_pos
  have hvalue := F.cast_units_add excess hlow hhigh
  -- Only the least pattern of a binade has a predecessor half a step away.
  rcases (show (excess = 0 ∧ 0 < kept) ∨ (excess ≠ 0 ∧ F.hiddenBit < kept) ∨
    (excess ≠ 0 ∧ kept = F.hiddenBit) by
      rcases hlow with rfl | hle
      · omega
      · omega) with hinside | hinside | ⟨hbinade, hleast⟩
  case inr.inr =>
    have hreach := hscaled.resolve_left hbinade
    rw [← hleast] at hreach
    have hmono : (F.units other : ℚ) < F.units (excess * F.hiddenBit + kept) := by
      exact_mod_cast F.units_strictMono hother
    have hscale := mul_le_mul_of_nonneg_right hreach hpow.le
    rw [hvalue] at hmono ⊢
    exact ⟨by linarith, fun htie => by linarith⟩
  all_goals
    obtain ⟨previous, rfl⟩ : ∃ previous, kept = previous + 1 :=
      ⟨kept - 1, by omega⟩
    have hprevious := F.cast_units_add excess (show excess = 0 ∨
      F.hiddenBit ≤ previous by omega) (by omega)
    have hmono : (F.units other : ℚ) ≤
        F.units (excess * F.hiddenBit + previous) := by
      exact_mod_cast F.units_strictMono.monotone (by omega)
    have hscale := mul_le_mul_of_nonneg_right hkept.le_below hpow.le
    rw [hvalue, Nat.cast_succ]
    rw [hprevious] at hmono
    rw [Nat.cast_succ] at hscale
    refine ⟨by linarith, fun htie => hkept.even_below ?_⟩
    apply mul_right_cancel₀ hpow.ne'
    rw [Nat.cast_succ]
    linarith

/-- Rounding the bits that the binade keeps gives the nearest pattern, also
when the rounding carries into the next binade. -/
theorem isNearest_of_excess (F : Format) (hbits : 0 < F.fractionBits)
    {q : ℚ} {excess kept : ℕ}
    (hlow : excess = 0 ∨ (F.hiddenBit * 2 ^ excess : ℚ) ≤ q)
    (hhigh : q < 2 * F.hiddenBit * 2 ^ excess)
    (hkept : RoundsHalfEven (q / 2 ^ excess) kept) :
    F.IsNearest q (excess * F.hiddenBit + kept) := by
  have hpow : (0 : ℚ) < 2 ^ excess := by positivity
  obtain ⟨scaled, rfl⟩ : ∃ scaled : ℚ, q = scaled * 2 ^ excess :=
    ⟨q / 2 ^ excess, by field_simp⟩
  rw [mul_div_cancel_right₀ _ hpow.ne'] at hkept
  have hscaledHigh := lt_of_mul_lt_mul_right hhigh hpow.le
  have hscaledLow : excess = 0 ∨ (F.hiddenBit : ℚ) ≤ scaled :=
    hlow.imp_right fun hle => le_of_mul_le_mul_right hle hpow
  have hle : kept ≤ 2 * F.hiddenBit := by
    apply hkept.le_of_le
    rw [Nat.cast_mul, Nat.cast_ofNat]
    exact hscaledHigh.le
  have hge : excess = 0 ∨ F.hiddenBit ≤ kept := hscaledLow.imp_right hkept.ge_of_ge
  have hparity : (excess * F.hiddenBit + kept) % 2 = kept % 2 := by
    rw [Nat.add_mod, Nat.mul_mod, F.hiddenBit_even hbits, Nat.mul_zero, Nat.zero_mod,
      Nat.zero_add, Nat.mod_mod]
  apply isNearest_of_midpoints
  · intro other hother
    rw [hparity]
    exact F.le_midpoint_of_excess hge hle hscaledHigh hkept hother
  · intro other hother
    rw [hparity]
    exact F.midpoint_le_of_excess hge hle hscaledLow hkept hother

end Format

end WasmFloat
