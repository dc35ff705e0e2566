import WasmFloat.Proofs.Nearest

namespace WasmFloat

theorem floorSqrtDigits_bounds (digits n : Nat) (h : n < 4 ^ digits) :
    floorSqrtDigits digits n * floorSqrtDigits digits n ≤ n ∧
      n < (floorSqrtDigits digits n + 1) * (floorSqrtDigits digits n + 1) := by
  induction digits generalizing n with
  | zero =>
      have hzero : n = 0 := by simpa using h
      subst hzero
      simp [floorSqrtDigits]
  | succ digits ih =>
      obtain ⟨hle, hlt⟩ := ih (n / 4) (by rw [Nat.pow_succ] at h; omega)
      unfold floorSqrtDigits
      generalize floorSqrtDigits digits (n / 4) = root at hle hlt
      have hdouble : 2 * root * (2 * root) = 4 * (root * root) := by
        rw [Nat.mul_mul_mul_comm]
      have hnext : (2 * root + 1 + 1) * (2 * root + 1 + 1) =
          4 * ((root + 1) * (root + 1)) := by
        rw [show 2 * root + 1 + 1 = 2 * (root + 1) by omega,
          Nat.mul_mul_mul_comm]
      simp only
      split
      · omega
      · omega

theorem lt_four_pow_digits (n : Nat) : n < 4 ^ (n.log2 / 2 + 1) := by
  have hlog : n < 2 ^ (n.log2 + 1) := Nat.lt_log2_self
  have hpow : 2 ^ (n.log2 + 1) ≤ 2 ^ (2 * (n.log2 / 2 + 1)) :=
    Nat.pow_le_pow_right (by decide) (by omega)
  rw [Nat.pow_mul] at hpow
  exact Nat.lt_of_lt_of_le hlog hpow

theorem floorSqrt_mul_self_le (n : Nat) : floorSqrt n * floorSqrt n ≤ n :=
  (floorSqrtDigits_bounds _ n (lt_four_pow_digits n)).1

theorem lt_succ_floorSqrt_mul_self (n : Nat) :
    n < (floorSqrt n + 1) * (floorSqrt n + 1) :=
  (floorSqrtDigits_bounds _ n (lt_four_pow_digits n)).2

theorem floorSqrt_lt {n bound : Nat} (h : n < bound * bound) : floorSqrt n < bound := by
  by_contra hge
  have hsquare := Nat.mul_self_le_mul_self (Nat.le_of_not_lt hge)
  exact absurd h (Nat.not_lt.mpr (hsquare.trans (floorSqrt_mul_self_le n)))

theorem le_floorSqrt {n bound : ℕ} (h : bound * bound ≤ n) : bound ≤ floorSqrt n := by
  by_contra hlt
  have hsquare := Nat.mul_self_le_mul_self (Nat.lt_of_not_le hlt)
  exact absurd (lt_succ_floorSqrt_mul_self n) (Nat.not_lt.mpr (hsquare.trans h))

namespace Format

theorem floorSqrt_shiftRight_bounds (square excess : ℕ) :
    (floorSqrt (square >>> (2 * excess)) * 2 ^ excess) ^ 2 ≤ square ∧
      square < ((floorSqrt (square >>> (2 * excess)) + 1) * 2 ^ excess) ^ 2 := by
  have hpos : 0 < 2 ^ (2 * excess) := Nat.two_pow_pos _
  have hstep : ∀ n, (n * 2 ^ excess) ^ 2 = n * n * 2 ^ (2 * excess) := by
    intro n
    rw [Nat.mul_comm 2, Nat.pow_mul]
    ring
  rw [hstep, hstep, Nat.shiftRight_eq_div_pow, ← Nat.le_div_iff_mul_le hpos,
    ← Nat.div_lt_iff_lt_mul hpos]
  exact ⟨floorSqrt_mul_self_le _, lt_succ_floorSqrt_mul_self _⟩

/-- Cutting a square where the excess of its root ends leaves a root that fills
the fraction at most. -/
theorem floorSqrt_shiftRight_lt (F : Format) (square : Nat) :
    floorSqrt (square >>> (2 * F.excessBits (floorSqrt square))) <
      2 * F.hiddenBit := by
  have hnext := lt_succ_floorSqrt_mul_self square
  have hroot := (F.excessBits_bounds (floorSqrt square)).2
  generalize F.excessBits (floorSqrt square) = excess at hroot ⊢
  apply floorSqrt_lt
  rw [Nat.shiftRight_eq_div_pow, Nat.div_lt_iff_lt_mul (Nat.two_pow_pos _)]
  calc square
      < (floorSqrt square + 1) * (floorSqrt square + 1) := hnext
    _ ≤ 2 * F.hiddenBit * 2 ^ excess * (2 * F.hiddenBit * 2 ^ excess) :=
        Nat.mul_self_le_mul_self hroot
    _ = 2 * F.hiddenBit * (2 * F.hiddenBit) * 2 ^ (2 * excess) := by
        rw [Nat.two_mul excess, Nat.pow_add]
        ring

theorem nearestSqrt_le (F : Format) (units : Nat) :
    F.nearestSqrt units ≤
      F.excessBits (floorSqrt (units * F.one)) * F.hiddenBit + 2 * F.hiddenBit := by
  have hkept := F.floorSqrt_shiftRight_lt (units * F.one)
  unfold nearestSqrt
  simp only [← excessBits.eq_1]
  split <;> omega

theorem excessBits_floorSqrt_lt (F : Format) {square bits : Nat}
    (h : square < 2 ^ (2 * (F.fractionBits + bits))) (hbits : 0 < bits) :
    F.excessBits (floorSqrt square) < bits := by
  have hroot : floorSqrt square < 2 ^ (F.fractionBits + bits) := by
    apply floorSqrt_lt
    rwa [← Nat.pow_add, ← Nat.two_mul]
  rw [excessBits]
  rcases Nat.eq_zero_or_pos (floorSqrt square) with hzero | hpos
  · rw [hzero, Nat.log2_zero]
    omega
  · have hlog := (Nat.log2_lt hpos.ne').mpr hroot
    omega

theorem nearestSqrt_lt_infinity {units : Nat}
    (h : units < binary64.units binary64.infinity) :
    binary64.nearestSqrt units < binary64.infinity := by
  have hexponent : 53 + 2045 + 1074 = 2 * (binary64.fractionBits + 1534) := rfl
  have hsquare : units * binary64.one < 2 ^ (2 * (binary64.fractionBits + 1534)) := by
    rw [units_infinity] at h
    rw [← hexponent, pow_add, pow_add, one_eq]
    exact Nat.mul_lt_mul_of_pos_right h (pow_pos (by decide) _)
  have hexcess := binary64.excessBits_floorSqrt_lt hsquare (by decide)
  have hle := binary64.nearestSqrt_le units
  have hhidden : binary64.hiddenBit = 2 ^ 52 := rfl
  have hinfinity : binary64.infinity = 2047 * 2 ^ 52 := rfl
  rw [hhidden] at hle
  omega

end Format

end WasmFloat
