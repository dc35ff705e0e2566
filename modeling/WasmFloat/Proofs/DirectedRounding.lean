import WasmFloat.Proofs.IntegralRounding
import WasmFloat.Proofs.Numbers
import WasmFloat.Proofs.Sums

namespace WasmFloat.Binary64

variable {x y : Binary64}

def IsIntegral (x : Binary64) : Prop := x.isFinite = true ∧ ∃ n : ℤ, x.value = n

theorem isIntegral_of_units {n : ℕ} (hfinite : x.isFinite = true)
    (h : x.units = n * Format.binary64.one) : x.IsIntegral := by
  refine ⟨hfinite, if x.isNegative then -n else n, ?_⟩
  rw [value_eq, absValue_of_units h]
  split <;> simp

theorem absValue_between (h : x.hasFraction = true) :
    (x.whole : ℚ) < x.absValue ∧ x.absValue < x.whole + 1 := by
  have hpos : (0 : ℚ) < (Format.binary64.one : ℕ) := by exact_mod_cast Format.one_pos
  have hsplit := x.units_eq_whole_add
  have hrest := Nat.pos_of_ne_zero (hasFraction_iff.mp h).2
  have hless := Nat.mod_lt x.units Format.one_pos
  have hlow : x.whole * Format.binary64.one < x.units := by omega
  have hhigh : x.units < (x.whole + 1) * Format.binary64.one := by
    rw [Nat.add_mul, Nat.one_mul]
    omega
  rw [absValue_eq_div, lt_div_iff₀ hpos, div_lt_iff₀ hpos]
  exact ⟨by exact_mod_cast hlow, by exact_mod_cast hhigh⟩

theorem not_hasFraction_of_isIntegral (h : x.IsIntegral) : ¬ x.hasFraction = true := by
  obtain ⟨hfinite, n, hn⟩ := h
  have hunits : x.units = n.natAbs * Format.binary64.one := by
    rw [← absValue_eq_iff, ← abs_value, hn, Nat.cast_natAbs, Int.cast_abs]
  exact not_hasFraction_of_isInteger (isInteger_of_units hfinite hunits)

theorem isIntegral_of_not_hasFraction (hfinite : x.isFinite = true)
    (h : ¬ x.hasFraction = true) : x.IsIntegral :=
  isIntegral_of_units hfinite
    (units_of_isInteger (isInteger_of_not_hasFraction hfinite h))

theorem isIntegral_integral (x : Binary64) {n : ℕ} (h : n ≤ 2 ^ 53) :
    (x.integral n).IsIntegral := by
  obtain ⟨hfinite, -, hunits⟩ := x.fields_integral h
  exact isIntegral_of_units hfinite hunits

theorem value_integral (x : Binary64) {n : ℕ} (h : n ≤ 2 ^ 53) :
    (x.integral n).value = if x.isNegative then (-n : ℚ) else n := by
  obtain ⟨-, hsign, hunits⟩ := x.fields_integral h
  rw [value_eq, hsign, absValue_of_units hunits]

@[simp] theorem isNegative_integral (x : Binary64) (n : ℕ) :
    (x.integral n).isNegative = x.isNegative :=
  isNegative_rounded _ _ _

@[simp] theorem hasFraction_neg (x : Binary64) : x.neg.hasFraction = x.hasFraction := by
  rw [hasFraction, hasFraction, isFinite_neg, units_neg]

@[simp] theorem whole_neg (x : Binary64) : x.neg.whole = x.whole := by
  rw [whole, whole, units_neg]

@[simp] theorem integral_neg (x : Binary64) (n : ℕ) :
    x.neg.integral n = (x.integral n).neg := by
  rw [integral, integral, isNegative_neg, rounded_not]

theorem ceil_neg (x : Binary64) : x.neg.ceil = x.floor.neg := by
  rw [ceil, floor, toIntegral, toIntegral, hasFraction_neg, isNegative_neg, whole_neg]
  cases x.isNegative <;> split <;> simp

theorem ceil_eq (x : Binary64) : x.ceil = x.neg.floor.neg := by
  rw [← ceil_neg, neg_neg]

theorem trunc_eq (x : Binary64) : x.trunc = if x.isNegative then x.ceil else x.floor := by
  rw [trunc, ceil, floor]
  cases x.isNegative <;> rfl

/-- The direction can be chosen by comparisons with zero, which fail on a NaN. -/
theorem trunc_eq_compare (x : Binary64) :
    x.trunc = if eq x zero then x else if lt x zero then x.ceil else x.floor := by
  by_cases h : x.hasFraction = true
  · have hnan := (isInfinite_of_isFinite (hasFraction_iff.mp h).1).2
    have hzeroNan : zero.isNan = false := by decide
    have hzeroRank : zero.rank = 0 := by decide
    have hmagnitude : x.magnitude ≠ 0 := by
      rw [Ne, ← isZero_iff]
      exact fun hzero => not_hasFraction_of_isInteger (isInteger_of_isZero hzero) h
    rw [trunc_eq, eq, lt, ordered_eq_true hnan hzeroNan, hzeroRank, Bool.true_and,
      Bool.true_and, rank]
    cases x.isNegative with
    | false => simp [hmagnitude]
    | true => simp [hmagnitude, Nat.pos_iff_ne_zero]
  · have hself : ∀ n, x.toIntegral n = x.quieted := toIntegral_of_not_hasFraction h
    simp only [trunc, ceil, floor, hself, ite_self]
    split
    · rename_i hzero
      exact quieted_of_not_isNan (isNan_of_eq hzero)
    · rfl

theorem floor_value (hfinite : x.isFinite = true) : x.floor.value = (⌊x.value⌋ : ℤ) := by
  by_cases h : x.hasFraction = true
  · have hwhole := whole_lt_of_hasFraction h
    obtain ⟨hlow, hhigh⟩ := absValue_between h
    rw [floor_eq_integral h, value_eq x]
    cases hsign : x.isNegative with
    | false =>
        have hfloor : ⌊x.absValue⌋ = x.whole := by
          rw [Int.floor_eq_iff, Int.cast_natCast]
          exact ⟨hlow.le, hhigh⟩
        simp [value_integral x hwhole.le, hsign, hfloor]
    | true =>
        have hfloor : ⌊-x.absValue⌋ = -((x.whole + 1 : ℕ) : ℤ) := by
          rw [Int.floor_eq_iff, Int.cast_neg, Int.cast_natCast, Nat.cast_succ]
          exact ⟨by linarith, by linarith⟩
        simp [value_integral x hwhole, hsign, hfloor]
  · obtain ⟨-, n, hn⟩ := isIntegral_of_not_hasFraction hfinite h
    rw [floor, toIntegral_of_not_hasFraction h, quieted_of_isFinite hfinite, hn,
      Int.floor_intCast]

theorem ceil_value (hfinite : x.isFinite = true) : x.ceil.value = (⌈x.value⌉ : ℤ) := by
  rw [ceil_eq, value_neg, floor_value (by rwa [isFinite_neg]), value_neg, Int.floor_neg]
  simp

theorem trunc_value (hfinite : x.isFinite = true) :
    x.trunc.value = if x.isNegative then (⌈x.value⌉ : ℚ) else (⌊x.value⌋ : ℤ) := by
  rw [trunc_eq]
  split
  · exact ceil_value hfinite
  · exact floor_value hfinite

theorem value_nonneg (h : x.isNegative = false) : 0 ≤ x.value := by
  rw [value_eq, h, if_neg Bool.false_ne_true]
  exact x.absValue_nonneg

theorem value_nonpos (h : x.isNegative = true) : x.value ≤ 0 := by
  rw [value_eq, h, if_pos rfl]
  exact neg_nonpos.mpr x.absValue_nonneg

/-- Across zero the two directions meet. -/
theorem trunc_value_mono (hx : x.isFinite = true) (hy : y.isFinite = true)
    (h : x.value ≤ y.value) : x.trunc.value ≤ y.trunc.value := by
  rw [trunc_value hx, trunc_value hy]
  cases hxSign : x.isNegative <;> cases hySign : y.isNegative
  case false.false => exact_mod_cast Int.floor_mono h
  case false.true => exact_mod_cast (Int.floor_mono h).trans (Int.floor_le_ceil _)
  case true.false =>
    have hbelow : ⌈x.value⌉ ≤ 0 := Int.ceil_le.mpr (by exact_mod_cast value_nonpos hxSign)
    have habove : 0 ≤ ⌊y.value⌋ := Int.le_floor.mpr (by exact_mod_cast value_nonneg hySign)
    exact_mod_cast hbelow.trans habove
  case true.true => exact_mod_cast Int.ceil_mono h

/-- A rounding to integral values that leaves them as they are, keeps the sign bit and
respects the order. -/
structure IsIntegralRounding (op : Binary64 → Binary64) : Prop where
  special : ∀ x : Binary64, x.isInfinite = true ∨ x.isQuietNan = true → op x = x
  unchanged : ∀ x : Binary64, x.IsIntegral → op x = x
  integral : ∀ x : Binary64, x.isFinite = true → (op x).IsIntegral
  sign : ∀ x : Binary64, x.isFinite = true → (op x).isNegative = x.isNegative
  idempotent : ∀ x : Binary64, x.IsQuiet → op (op x) = op x
  monotone : ∀ x y : Binary64, le x y = true → le (op x) (op y) = true

theorem le_iff_value (hx : x.isFinite = true) (hy : y.isFinite = true) :
    le x y = true ↔ x.value ≤ y.value := by
  rw [le, ordered_eq_true (isInfinite_of_isFinite hx).2 (isInfinite_of_isFinite hy).2,
    Bool.true_and, decide_eq_true_eq, ← not_lt, ← not_lt, value_lt_iff]

/-- An infinity is below every finite value or above it, as its sign says. -/
theorem infinite_le (hnan : x.isNan = false) (hx : x.isFinite = false)
    (hy : y.isFinite = true) : le x y = x.isNegative := by
  rw [le, ordered_eq_true hnan (isInfinite_of_isFinite hy).2, Bool.true_and, rank, rank]
  rw [← Bool.not_eq_true, isFinite_iff] at hx
  rw [isFinite_iff] at hy
  cases x.isNegative with
  | false =>
      rw [if_neg Bool.false_ne_true, decide_eq_false_iff_not]
      split <;> omega
  | true =>
      rw [if_pos rfl, decide_eq_true_eq]
      split <;> omega

theorem le_infinite (hnan : y.isNan = false) (hx : x.isFinite = true)
    (hy : y.isFinite = false) : le x y = !y.isNegative := by
  rw [← le_neg_neg, infinite_le (by rwa [isNan_neg]) (by rwa [isFinite_neg])
    (by rwa [isFinite_neg]), isNegative_neg]

/-- It is enough to keep finite values finite and in order, and to leave the others. -/
theorem le_of_value_mono {op : Binary64 → Binary64}
    (hother : ∀ x : Binary64, x.isFinite = false → x.IsQuiet → op x = x)
    (hfinite : ∀ x : Binary64, x.isFinite = true → (op x).isFinite = true)
    (hmono : ∀ x y : Binary64, x.isFinite = true → y.isFinite = true →
      x.value ≤ y.value → (op x).value ≤ (op y).value)
    (hle : le x y = true) : le (op x) (op y) = true := by
  obtain ⟨hxNan, hyNan⟩ : x.isNan = false ∧ y.isNan = false := by
    simpa [le, ordered] using (Bool.and_eq_true_iff.mp hle).1
  have hxQuiet : x.IsQuiet := isQuiet_of_not_isNan hxNan
  have hyQuiet : y.IsQuiet := isQuiet_of_not_isNan hyNan
  cases hx : x.isFinite <;> cases hy : y.isFinite
  case false.false => rwa [hother x hx hxQuiet, hother y hy hyQuiet]
  case false.true =>
    rwa [hother x hx hxQuiet, infinite_le hxNan hx (hfinite y hy), ← infinite_le hxNan hx hy]
  case true.false =>
    rwa [hother y hy hyQuiet, le_infinite hyNan (hfinite x hx) hy, ← le_infinite hyNan hx hy]
  case true.true =>
    rw [le_iff_value hx hy] at hle
    rw [le_iff_value (hfinite x hx) (hfinite y hy)]
    exact hmono x y hx hy hle

theorem IsIntegralRounding.of_hasFraction {op : Binary64 → Binary64}
    (hself : ∀ x : Binary64, ¬ x.hasFraction = true → op x = x.quieted)
    (hround : ∀ x : Binary64, x.hasFraction = true → ∃ n ≤ 2 ^ 53, op x = x.integral n)
    (hmono : ∀ x y : Binary64, x.isFinite = true → y.isFinite = true →
      x.value ≤ y.value → (op x).value ≤ (op y).value) : IsIntegralRounding op := by
  have hintegral : ∀ x : Binary64, x.isFinite = true → (op x).IsIntegral := by
    intro x hfinite
    by_cases h : x.hasFraction = true
    · obtain ⟨n, hn, hop⟩ := hround x h
      rw [hop]
      exact x.isIntegral_integral hn
    · rw [hself x h, quieted_of_isFinite hfinite]
      exact isIntegral_of_not_hasFraction hfinite h
  have hunchanged : ∀ x : Binary64, x.IsIntegral → op x = x := by
    intro x h
    rw [hself x (not_hasFraction_of_isIntegral h), quieted_of_isFinite h.1]
  have hother : ∀ x : Binary64, x.isFinite = false → x.IsQuiet → op x = x := by
    intro x h hquiet
    rw [hself x (by simp [hasFraction_of_not_isFinite h]), quieted_of_isQuiet hquiet]
  constructor
  case special =>
    rintro x (hinfinite | hquiet)
    · exact hother x (isFinite_eq_false (Or.inl hinfinite))
        (isQuiet_of_not_isNan (isNan_of_isInfinite hinfinite))
    · exact hother x (isFinite_eq_false (Or.inr (isNan_of_isQuietNan hquiet))) fun _ => hquiet
  case unchanged => exact hunchanged
  case integral => exact hintegral
  case sign =>
    intro x hfinite
    by_cases h : x.hasFraction = true
    · obtain ⟨n, -, hop⟩ := hround x h
      rw [hop, isNegative_integral]
    · rw [hself x h, isNegative_quieted]
  case idempotent =>
    intro x hquiet
    cases hfinite : x.isFinite with
    | true => exact hunchanged _ (hintegral x hfinite)
    | false => rw [hother x hfinite hquiet, hother x hfinite hquiet]
  case monotone =>
    exact fun x y => le_of_value_mono hother (fun x hx => (hintegral x hx).1) hmono

theorem isIntegralRounding_floor : IsIntegralRounding floor := by
  apply IsIntegralRounding.of_hasFraction
  · intro x h
    rw [floor, toIntegral_of_not_hasFraction h]
  · exact fun x h => exists_floor_eq h
  · intro x y hx hy hle
    rw [floor_value hx, floor_value hy]
    exact_mod_cast Int.floor_mono hle

theorem isIntegralRounding_ceil : IsIntegralRounding ceil := by
  apply IsIntegralRounding.of_hasFraction
  · intro x h
    rw [ceil, toIntegral_of_not_hasFraction h]
  · exact fun x h => exists_ceil_eq h
  · intro x y hx hy hle
    rw [ceil_value hx, ceil_value hy]
    exact_mod_cast Int.ceil_mono hle

theorem isIntegralRounding_trunc : IsIntegralRounding trunc := by
  apply IsIntegralRounding.of_hasFraction
  · intro x h
    rw [trunc, toIntegral_of_not_hasFraction h]
  · intro x h
    exact ⟨x.whole, (whole_lt_of_hasFraction h).le, by rw [trunc, toIntegral_of_hasFraction h]⟩
  · intro x y hx hy hle
    exact trunc_value_mono hx hy hle

def integralNumbers : Set ℚ := {q | ∃ z : Binary64, z.IsIntegral ∧ z.value = q}

theorem isGreatest_floor (hfinite : x.isFinite = true) :
    IsGreatest {q ∈ integralNumbers | q ≤ x.value} x.floor.value := by
  refine ⟨⟨⟨x.floor, isIntegralRounding_floor.integral x hfinite, rfl⟩, ?_⟩, ?_⟩
  · rw [floor_value hfinite]
    exact Int.floor_le x.value
  · rintro q ⟨⟨z, ⟨-, n, hn⟩, rfl⟩, hle⟩
    rw [hn] at hle
    rw [hn, floor_value hfinite, Int.cast_le]
    exact Int.le_floor.mpr hle

theorem isLeast_ceil (hfinite : x.isFinite = true) :
    IsLeast {q ∈ integralNumbers | x.value ≤ q} x.ceil.value := by
  refine ⟨⟨⟨x.ceil, isIntegralRounding_ceil.integral x hfinite, rfl⟩, ?_⟩, ?_⟩
  · rw [ceil_value hfinite]
    exact Int.le_ceil x.value
  · rintro q ⟨⟨z, ⟨-, n, hn⟩, rfl⟩, hle⟩
    rw [hn] at hle
    rw [hn, ceil_value hfinite, Int.cast_le]
    exact Int.ceil_le.mpr hle

theorem abs_eq (x : Binary64) : x.abs = if x.isNegative then x.neg else x := by
  cases hsign : x.isNegative <;> exact ext_fields (by simp [hsign]) (by simp)

theorem isNegative_floor (x : Binary64) : x.floor.isNegative = x.isNegative := by
  rw [floor, toIntegral]
  split <;> simp

theorem copysign_floor_abs (x : Binary64) : copysign (floor x.abs) x = x.trunc := by
  have habs : (floor x.abs).abs = floor x.abs := by
    rw [abs_eq, isNegative_floor, isNegative_abs, if_neg Bool.false_ne_true]
  rw [copysign_eq, habs, trunc_eq, abs_eq, ceil_eq]
  split <;> rfl

structure AreDirectedRoundings (floor ceil trunc : Binary64 → Binary64) : Prop where
  integral : ∀ op ∈ [floor, ceil, trunc], IsIntegralRounding op
  greatest : ∀ x : Binary64, x.isFinite = true →
    IsGreatest {q ∈ integralNumbers | q ≤ x.value} (floor x).value
  least : ∀ x : Binary64, x.isFinite = true →
    IsLeast {q ∈ integralNumbers | x.value ≤ q} (ceil x).value
  towardZero : ∀ x : Binary64, x.IsQuiet → trunc x = copysign (floor x.abs) x
  compared : ∀ x : Binary64,
    trunc x = if eq x zero then x else if lt x zero then ceil x else floor x
  mirrored : ∀ x : Binary64, x.IsQuiet → ceil x.neg = (floor x).neg

/-- The three operations on the patterns are the exact roundings of the numbers. -/
theorem areDirectedRoundings : AreDirectedRoundings floor ceil trunc where
  integral := by
    simp only [List.forall_mem_cons, List.not_mem_nil, false_implies, implies_true, and_true]
    exact ⟨isIntegralRounding_floor, isIntegralRounding_ceil, isIntegralRounding_trunc⟩
  greatest _ := isGreatest_floor
  least _ := isLeast_ceil
  towardZero x _ := (copysign_floor_abs x).symm
  compared := trunc_eq_compare
  mirrored x _ := ceil_neg x

example : ceil ⟨0xBFE0000000000000⟩ = negZero := by decide +kernel

end WasmFloat.Binary64
