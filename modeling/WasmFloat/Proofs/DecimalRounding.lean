import WasmFloat.Decimal.Shortest
import WasmFloat.Proofs.Values

namespace WasmFloat

namespace Decimal

def value (number : Decimal) : ℚ :=
  number.coefficient * (10 : ℚ) ^ number.exponent

theorem value_nonneg (number : Decimal) : 0 ≤ number.value :=
  mul_nonneg (Nat.cast_nonneg _) (zpow_pos (by decide) _).le

theorem value_ofNumeral (numeral : Numeral) :
    (ofNumeral numeral).value = numeral.value 10 10 := by
  rw [value, ofNumeral, Numeral.value, mul_assoc, Nat.cast_ofNat,
    ← zpow_add₀ (by decide)]
  congr 2
  exact Int.sub_eq_add_neg.trans (Int.add_comm _ _)

theorem ten_zpow (e : ℤ) :
    (10 : ℚ) ^ e = (10 ^ e.toNat : ℕ) / (10 ^ (-e).toNat : ℕ) := by
  rw [eq_div_iff (by positivity)]
  simp only [Nat.cast_pow, Nat.cast_ofNat, ← zpow_natCast]
  rw [← zpow_add₀ (by decide)]
  congr 1
  omega

theorem value_refine (m : ℕ) {coarse fine : ℤ} (h : fine ≤ coarse) :
    (Decimal.mk m coarse).value =
      (Decimal.mk (m * 10 ^ (coarse - fine).toNat) fine).value := by
  simp only [value]
  rw [Nat.cast_mul, Nat.cast_pow, Nat.cast_ofNat, mul_assoc, ← zpow_natCast,
    ← zpow_add₀ (by decide)]
  congr 2
  omega

theorem isNearest_nearestAtScale (number : Decimal) :
    Format.binary64.IsNearest (number.value * 2 ^ 1074) number.nearestAtScale := by
  have hnearest := Format.binary64.isNearest_nearest (by decide)
    (number.coefficient * tenPow number.exponent.toNat * Format.binary64.one)
    (show 0 < tenPow (-number.exponent).toNat from Nat.pow_pos (by decide))
  have hvalue : number.value * 2 ^ 1074 =
      ((number.coefficient * tenPow number.exponent.toNat * Format.binary64.one : ℕ) :
        ℚ) / (tenPow (-number.exponent).toNat : ℕ) := by
    rw [value, ten_zpow, Format.one_eq]
    simp only [Nat.cast_mul, tenPow, Nat.pow_eq, Nat.cast_pow, Nat.cast_ofNat]
    generalize (2 : ℚ) ^ 1074 = scale
    ring
  rw [hvalue]
  exact hnearest

theorem large_of_exponent {number : Decimal} (hpos : 0 < number.coefficient)
    (h : 309 ≤ number.exponent) : (2 : ℚ) ^ (1024 : ℤ) ≤ number.value := by
  have hcast : (2 : ℚ) ^ (1024 : ℤ) ≤ 10 ^ (309 : ℤ) := by
    have hnat : 2 ^ 1024 ≤ 10 ^ 309 := by decide +kernel
    exact_mod_cast hnat
  have hone : (1 : ℚ) ≤ number.coefficient := by exact_mod_cast hpos
  have hten : (10 : ℚ) ^ (309 : ℤ) ≤ 10 ^ number.exponent :=
    zpow_le_zpow_right₀ (by decide) h
  exact (hcast.trans hten).trans
    (le_mul_of_one_le_left (zpow_pos (by decide) _).le hone)

/-- Three bits for each ten of the divisor leave less than half a unit. -/
theorem small_of_exponent {number : Decimal}
    (h : (number.coefficient.log2 : ℤ) + 1076 ≤ 3 * -number.exponent) :
    number.value ≤ (2 : ℚ) ^ (-1075 : ℤ) := by
  obtain ⟨k, hk⟩ : ∃ k : ℕ, number.exponent = -(k : ℤ) :=
    ⟨(-number.exponent).toNat, by omega⟩
  have hcoefficient : (number.coefficient : ℚ) ≤
      2 ^ ((number.coefficient.log2 : ℤ) + 1) := by
    have hlt : number.coefficient < 2 ^ (number.coefficient.log2 + 1) :=
      Nat.lt_log2_self
    exact_mod_cast hlt.le
  have hten : (10 : ℚ) ^ number.exponent ≤ 2 ^ (3 * number.exponent) := by
    rw [hk, zpow_mul, zpow_neg, zpow_neg]
    apply inv_anti₀ (zpow_pos (by norm_num) _)
    rw [zpow_natCast, zpow_natCast]
    exact pow_le_pow_left₀ (by norm_num) (by norm_num) k
  calc number.value
      ≤ 2 ^ ((number.coefficient.log2 : ℤ) + 1) * 2 ^ (3 * number.exponent) :=
        mul_le_mul hcoefficient hten (zpow_pos (by decide) _).le
          (zpow_pos (by decide) _).le
    _ = 2 ^ ((number.coefficient.log2 : ℤ) + 1 + 3 * number.exponent) := by
        rw [← zpow_add₀ (by decide)]
    _ ≤ 2 ^ (-1075 : ℤ) := zpow_le_zpow_right₀ (by decide) (by omega)

/-- What the exponent decides alone is decided right. -/
theorem ofFinite?_nearest (number : Decimal) :
    Binary64.ofFinite? number.nearest =
      Binary64.ofFinite? (Binary64.nearestMagnitude number.value) := by
  have hnonneg := number.value_nonneg
  unfold nearest
  split
  · rename_i hzero
    rw [value, hzero, Nat.cast_zero, zero_mul,
      Binary64.ofFinite?_of_small le_rfl (zpow_pos (by decide) _).le]
    rfl
  · rename_i hne
    split
    · rename_i hlarge
      rw [Binary64.ofFinite?_of_large
        (large_of_exponent (Nat.pos_of_ne_zero hne) hlarge)]
      rfl
    · split
      · rename_i hsmall
        rw [Binary64.ofFinite?_of_small hnonneg (small_of_exponent hsmall)]
        rfl
      · rw [number.isNearest_nearestAtScale.eq_nearestTo (by decide)
          (mul_nonneg hnonneg (pow_nonneg (by decide) _))]
        rfl

theorem readsAs_of_onGrid? {pattern : ℕ} {exponent : ℤ} {number : Decimal}
    (h : onGrid? pattern exponent = some number) :
    number.readsAs pattern = true := by
  have hchoice : ∀ nearer farther : Decimal,
      (if nearer.readsAs pattern then some nearer
        else if farther.readsAs pattern then some farther else none) = some number →
      number.readsAs pattern = true := by
    intro nearer farther hsome
    split at hsome
    · rename_i hnearer
      cases hsome
      exact hnearer
    · split at hsome
      · rename_i hfarther
        cases hsome
        exact hfarther
      · exact nomatch hsome
  exact hchoice _ _ h

theorem pointsPerUnit_eq : pointsPerUnit = 5 ^ 1074 := by
  have hscale : Format.binary64.unitScale = 1074 := rfl
  unfold pointsPerUnit
  -- The power itself is too large to be computed.
  generalize Format.binary64.unitScale = scale at hscale ⊢
  rw [← hscale]
  exact Nat.pow_eq

theorem value_onFinestGrid (pattern : ℕ) :
    (onFinestGrid pattern).value = Format.binary64.units pattern / 2 ^ 1074 := by
  have hexponent : finestExponent = -((1074 : ℕ) : ℤ) := rfl
  rw [value, onFinestGrid, pointsPerUnit_eq, hexponent, zpow_neg, zpow_natCast,
    show (10 : ℚ) = 5 * 2 by norm_num, mul_pow]
  simp only [Nat.cast_mul, Nat.cast_pow, Nat.cast_ofNat]
  have hfive : (5 : ℚ) ^ 1074 ≠ 0 := pow_ne_zero _ (by decide)
  have htwo : (2 : ℚ) ^ 1074 ≠ 0 := pow_ne_zero _ (by decide)
  generalize (5 : ℚ) ^ 1074 = five at hfive ⊢
  generalize (2 : ℚ) ^ 1074 = two at htwo ⊢
  field_simp

theorem ofFinite?_search (pattern steps : ℕ) :
    Binary64.ofFinite? (Binary64.nearestMagnitude (search pattern steps).value) =
      Binary64.ofFinite? pattern := by
  induction steps with
  | zero => rw [search, value_onFinestGrid, Binary64.nearestMagnitude_units]
  | succ steps ih =>
      rw [search]
      split
      · rename_i number hgrid
        have hreads := readsAs_of_onGrid? hgrid
        rw [readsAs, beq_iff_eq] at hreads
        rw [← ofFinite?_nearest, hreads]
      · exact ih

/-- Whichever grid the search stops on, its number rounds back. -/
theorem ofFinite?_shortest (pattern : ℕ) :
    Binary64.ofFinite? (Binary64.nearestMagnitude (shortest pattern).value) =
      Binary64.ofFinite? pattern := by
  rw [shortest]
  split
  · rename_i hzero
    rw [← ofFinite?_nearest, hzero]
    rfl
  · exact ofFinite?_search pattern _

end Decimal

theorem Literal.nearestDecimal?_eq (numeral : Numeral) :
    nearestDecimal? numeral = Binary64.ofFinite?
      (Binary64.nearestMagnitude (numeral.value 10 10)) := by
  rw [← Decimal.value_ofNumeral, ← Decimal.ofFinite?_nearest]
  rfl

end WasmFloat
