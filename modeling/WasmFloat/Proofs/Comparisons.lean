import Mathlib.Tactic.NormNum
import WasmFloat.Proofs.Numbers

/-!
Comparisons follow the numbers that the fields of the patterns denote. The number is
read off sign, exponent and fraction as the format lays them out, apart from the masks
that classify values and from the ranks that compare them.
-/

namespace WasmFloat.Binary64

variable {x y : Binary64}

def signField (x : Binary64) : ℕ := x.bits.toNat / 2 ^ 63

def exponentField (x : Binary64) : ℕ := x.bits.toNat / 2 ^ 52 % 2 ^ 11

def fractionField (x : Binary64) : ℕ := x.bits.toNat % 2 ^ 52

/-- The number that the fields denote. The last exponent is that of the infinities,
and with a fraction it denotes nothing; the first one has no hidden bit. -/
def denoted? (x : Binary64) : Option (WithBot (WithTop ℚ)) :=
  let sign : ℚ := (-1) ^ x.signField
  if x.exponentField = 2047 then
    if x.fractionField = 0 then some (if x.signField = 0 then ⊤ else ⊥) else none
  else
    let size : ℚ :=
      if x.exponentField = 0 then 2 ^ (-1022 : ℤ) * (x.fractionField / 2 ^ 52)
      else 2 ^ ((x.exponentField : ℤ) - 1023) * (1 + x.fractionField / 2 ^ 52)
    some ((sign * size : ℚ) : WithTop ℚ)

theorem signField_eq (x : Binary64) : x.signField = if x.isNegative then 1 else 0 := by
  have hbits := x.bits.toNat_lt
  rw [signField]
  split
  · rename_i hsign
    rw [isNegative_iff] at hsign
    omega
  · rename_i hsign
    rw [isNegative_iff] at hsign
    omega

theorem exponentField_eq (x : Binary64) : x.exponentField = x.magnitude / 2 ^ 52 := by
  rw [exponentField, magnitude_eq]
  omega

theorem fractionField_eq (x : Binary64) : x.fractionField = x.magnitude % 2 ^ 52 := by
  rw [fractionField, magnitude_eq]
  omega

theorem absValue_eq_fields (x : Binary64) :
    x.absValue =
      if x.exponentField = 0 then (2 : ℚ) ^ (-1022 : ℤ) * (x.fractionField / 2 ^ 52)
      else (2 : ℚ) ^ ((x.exponentField : ℤ) - 1023) * (1 + x.fractionField / 2 ^ 52) := by
  have hhidden : Format.binary64.hiddenBit = 2 ^ 52 := rfl
  have hpos : (0 : ℚ) < 2 ^ 1022 := pow_pos (by decide) _
  have hscale : (2 : ℚ) ^ 1074 = 2 ^ 1022 * 2 ^ 52 := by
    rw [show 1074 = 1022 + 52 from rfl, pow_add]
  rw [exponentField_eq, fractionField_eq, absValue, units, Format.units, hhidden, hscale]
  by_cases hsubnormal : x.magnitude < 2 ^ 52
  · rw [if_pos hsubnormal, if_pos (Nat.div_eq_of_lt hsubnormal),
      Nat.mod_eq_of_lt hsubnormal, zpow_neg, show (1022 : ℤ) = (1022 : ℕ) from rfl,
      zpow_natCast]
    generalize (2 : ℚ) ^ 1022 = scale at hpos ⊢
    field_simp
  · obtain ⟨binade, hbinade⟩ : ∃ binade, x.magnitude / 2 ^ 52 = binade + 1 :=
      ⟨x.magnitude / 2 ^ 52 - 1, by omega⟩
    have hexponent : (2 : ℚ) ^ (((binade + 1 : ℕ) : ℤ) - 1023) = 2 ^ binade / 2 ^ 1022 := by
      rw [show ((binade + 1 : ℕ) : ℤ) - 1023 = (binade : ℤ) - (1022 : ℕ) by omega,
        zpow_sub₀ two_ne_zero, zpow_natCast, zpow_natCast]
    rw [if_neg hsubnormal, hbinade, if_neg (Nat.succ_ne_zero binade), hexponent,
      Nat.add_sub_cancel, Nat.shiftLeft_eq]
    simp only [Nat.cast_mul, Nat.cast_add, Nat.cast_pow, Nat.cast_ofNat]
    generalize (2 : ℚ) ^ 1022 = scale at hpos ⊢
    field_simp

/-- The masks tell exactly the patterns that denote nothing. -/
theorem denoted?_eq (x : Binary64) :
    x.denoted? = if x.isNan then none else some x.number := by
  have hinfinity : Format.binary64.infinity = 2047 * 2 ^ 52 := rfl
  have hword := x.magnitude_lt
  rw [denoted?, ← absValue_eq_fields]
  by_cases hlast : x.exponentField = 2047
  · rw [if_pos hlast]
    rw [exponentField_eq] at hlast
    by_cases hfraction : x.fractionField = 0
    · rw [if_pos hfraction]
      rw [fractionField_eq] at hfraction
      have hinfinite : x.isInfinite = true := by
        rw [isInfinite_iff]
        omega
      rw [isNan_of_isInfinite hinfinite, number, if_pos hinfinite, signField_eq]
      cases x.isNegative <;> rfl
    · rw [if_neg hfraction]
      rw [fractionField_eq] at hfraction
      have hnan : x.isNan = true := by
        rw [isNan_iff]
        omega
      rw [hnan, if_pos rfl]
  · rw [if_neg hlast]
    rw [exponentField_eq] at hlast
    have hfinite : x.isFinite = true := by
      rw [isFinite_iff]
      omega
    obtain ⟨hinfinite, hnan⟩ := isInfinite_of_isFinite hfinite
    rw [hnan, number, hinfinite, signField_eq, value_eq]
    cases x.isNegative <;> simp

theorem number_eq_iff (hx : x.isNan = false) (hy : y.isNan = false) :
    x.number = y.number ↔ x.rank = y.rank := by
  rw [le_antisymm_iff, le_antisymm_iff, ← not_lt, ← not_lt, ← not_lt, ← not_lt,
    number_lt_iff hx hy, number_lt_iff hy hx]

theorem ordered_iff : ordered x y = true ↔ x.isNan = false ∧ y.isNan = false := by
  simp [ordered]

theorem lt_iff :
    lt x y = true ↔ x.isNan = false ∧ y.isNan = false ∧ x.number < y.number := by
  rw [lt, Bool.and_eq_true, ordered_iff, decide_eq_true_eq, and_assoc]
  refine and_congr_right fun hx => and_congr_right fun hy => ?_
  rw [number_lt_iff hx hy]

theorem eq_iff :
    eq x y = true ↔ x.isNan = false ∧ y.isNan = false ∧ x.number = y.number := by
  rw [eq, Bool.and_eq_true, ordered_iff, beq_iff_eq, and_assoc]
  refine and_congr_right fun hx => and_congr_right fun hy => ?_
  rw [number_eq_iff hx hy]

theorem le_iff :
    le x y = true ↔ x.isNan = false ∧ y.isNan = false ∧ x.number ≤ y.number := by
  rw [le, Bool.and_eq_true, ordered_iff, decide_eq_true_eq, and_assoc]
  refine and_congr_right fun hx => and_congr_right fun hy => ?_
  rw [← not_lt, ← not_lt, number_lt_iff hy hx]

theorem le_eq_lt_or_eq (x y : Binary64) : le x y = (lt x y || eq x y) := by
  rw [Bool.eq_iff_iff, Bool.or_eq_true, le_iff, lt_iff, eq_iff, le_iff_lt_or_eq]
  tauto

theorem eq_swap (x y : Binary64) : eq x y = eq y x := by
  rw [Bool.eq_iff_iff, eq_iff, eq_iff, eq_comm (a := x.number)]
  tauto

/-- Comparisons in the order of the denoted numbers, in which a value that denotes none
has no place. -/
structure FollowNumbers (eq ne lt gt le ge : Binary64 → Binary64 → Bool) : Prop where
  isNan_iff : ∀ x : Binary64, x.isNan = true ↔ x.denoted? = none
  unordered : ∀ x y : Binary64, x.isNan = true ∨ y.isNan = true →
    eq x y = false ∧ lt x y = false ∧ gt x y = false ∧ le x y = false ∧ ge x y = false ∧
      ne x y = true
  ordered : ∀ (x y : Binary64) (p q : WithBot (WithTop ℚ)),
    x.denoted? = some p → y.denoted? = some q →
      (lt x y = true ↔ p < q) ∧ (eq x y = true ↔ p = q) ∧ (gt x y = true ↔ q < p)
  exactlyOne : ∀ x y : Binary64, x.isNan = false → y.isNan = false →
    (lt x y).toNat + (eq x y).toNat + (gt x y).toNat = 1
  le_eq : ∀ x y, le x y = (lt x y || eq x y)
  ge_eq : ∀ x y, ge x y = (gt x y || eq x y)
  ne_eq : ∀ x y, ne x y = !eq x y
  lt_trans : ∀ x y z, lt x y = true → lt y z = true → lt x z = true
  identical : ∀ x y, eq x y = true → x.isZero = false → y.isZero = false →
    x.bits = y.bits
  ne_self : ∀ x, ne x x = true ↔ x.isNan = true

theorem isNan_of_denoted? {p : WithBot (WithTop ℚ)} (h : x.denoted? = some p) :
    x.isNan = false ∧ x.number = p := by
  rw [denoted?_eq] at h
  cases hnan : x.isNan with
  | true => simp [hnan] at h
  | false => exact ⟨rfl, by simpa [hnan] using h⟩

theorem exactlyOne_of_numbers (hx : x.isNan = false) (hy : y.isNan = false) :
    (lt x y).toNat + (eq x y).toNat + (gt x y).toNat = 1 := by
  have hlt : lt x y = decide (x.rank < y.rank) := by
    rw [lt, ordered_eq_true hx hy, Bool.true_and]
  have heq : eq x y = decide (x.rank = y.rank) := by
    rw [eq, ordered_eq_true hx hy, Bool.true_and]
    rfl
  have hgt : gt x y = decide (y.rank < x.rank) := by
    rw [gt, lt, ordered_eq_true hy hx, Bool.true_and]
  rw [hlt, heq, hgt]
  rcases lt_trichotomy x.rank y.rank with h | h | h
  · simp [h, h.ne, h.not_gt]
  · simp [h]
  · simp [h, h.ne', h.not_gt]

/-- Every comparison is decided by the numbers alone. -/
theorem comparisons_followNumbers : FollowNumbers eq ne lt gt le ge where
  isNan_iff x := by
    rw [denoted?_eq]
    cases x.isNan <;> simp
  unordered x y h := by
    have hself := ordered_of_isNan h
    have hswap := ordered_of_isNan h.symm
    simp [eq, ne, lt, gt, le, ge, hself, hswap]
  ordered x y p q hp hq := by
    obtain ⟨hx, rfl⟩ := isNan_of_denoted? hp
    obtain ⟨hy, rfl⟩ := isNan_of_denoted? hq
    rw [lt_iff, eq_iff, gt, lt_iff]
    simp [hx, hy]
  exactlyOne _ _ := exactlyOne_of_numbers
  le_eq := le_eq_lt_or_eq
  ge_eq x y := by rw [ge, gt, le_eq_lt_or_eq, eq_swap]
  ne_eq _ _ := rfl
  lt_trans x y z hxy hyz := by
    rw [lt_iff] at hxy hyz ⊢
    exact ⟨hxy.1, hyz.2.1, hxy.2.2.trans hyz.2.2⟩
  identical x y h hx hy := by
    obtain ⟨hxNan, hyNan, hnumber⟩ := eq_iff.mp h
    rw [number_eq_iff hxNan hyNan, rank_eq_rank_iff, hx] at hnumber
    rcases hnumber with rfl | ⟨hzero, -⟩
    · rfl
    · exact absurd hzero Bool.false_ne_true
  ne_self x := by
    rw [ne, Bool.not_eq_true', ← Bool.not_eq_true, eq_iff]
    simp

end WasmFloat.Binary64
