import WasmFloat.Proofs.IntegralRounding
import WasmFloat.Proofs.Products

/-!
The nearest integral value can be chosen by arithmetic on values: the differences
to the two neighbours are rounded, yet they compare as the exact ones do, and a
tie is broken by halving.
-/

namespace WasmFloat.Binary64

variable {x : Binary64}

def two : Binary64 := ⟨0x4000000000000000⟩

def halfIsIntegral (x : Binary64) : Bool :=
  let half := div x two
  eq half.floor half

/-- Of the integral values on either side the one at the lesser distance, and of
two at equal distances the upper one if it is even. -/
def closerNeighbour (x : Binary64) : Binary64 :=
  let up := x.ceil
  let down := x.floor
  let toUp := (sub up x).abs
  let toDown := (sub x down).abs
  if eq x zero then x
  else if lt toUp toDown then up
  else if lt toDown toUp then down
  else if halfIsIntegral up then up
  else down

theorem closerNeighbour_of_not_hasFraction (h : ¬ x.hasFraction = true) :
    closerNeighbour x = x.quieted := by
  have hup : x.ceil = x.quieted := toIntegral_of_not_hasFraction h _
  have hdown : x.floor = x.quieted := toIntegral_of_not_hasFraction h _
  simp only [closerNeighbour, hup, hdown, ite_self]
  split
  · rename_i hzero
    exact (quieted_of_not_isNan (isNan_of_eq hzero)).symm
  · rfl

def roundedSize (units : ℕ) : ℕ :=
  Min.min (Format.binary64.nearest units 1) Format.binary64.infinity

theorem roundedSize_mono {units other : ℕ} (h : units ≤ other) :
    roundedSize units ≤ roundedSize other := by
  have hnearest := fun n => Format.binary64.isNearest_nearest (by decide) n Nat.one_pos
  apply min_le_min_right
  refine (hnearest units).mono (hnearest other) ?_
  rw [Nat.cast_one, div_one, div_one]
  exact_mod_cast h

theorem roundedSize_units {pattern : ℕ} (h : pattern < Format.binary64.infinity) :
    roundedSize (Format.binary64.units pattern) = pattern := by
  rw [roundedSize, Format.nearest_units _ (by decide), min_eq_left h.le]

theorem exists_half : ∃ middle, middle < Format.binary64.infinity ∧
    2 * Format.binary64.units middle = Format.binary64.one :=
  ⟨1022 * Format.binary64.hiddenBit, by decide, by decide +kernel⟩

/-- The half is a value, so of two parts of the number one the rounded sizes keep
the order if one part is a value itself. -/
theorem roundedSize_lt_of_lt_half {pattern : ℕ}
    (h : 2 * Format.binary64.units pattern < Format.binary64.one) :
    roundedSize (Format.binary64.units pattern) <
      roundedSize (Format.binary64.one - Format.binary64.units pattern) := by
  obtain ⟨middle, hmiddle, hhalf⟩ := exists_half
  have hlt : pattern < middle := by
    rw [← Format.binary64.units_strictMono.lt_iff_lt]
    omega
  have hge := roundedSize_mono (show Format.binary64.units middle ≤
    Format.binary64.one - Format.binary64.units pattern by omega)
  rw [roundedSize_units hmiddle] at hge
  rw [roundedSize_units (hlt.trans hmiddle)]
  exact hlt.trans_le hge

theorem roundedSize_lt_of_half_lt {pattern : ℕ} (hfinite : pattern < Format.binary64.infinity)
    (h : Format.binary64.one < 2 * Format.binary64.units pattern) :
    roundedSize (Format.binary64.one - Format.binary64.units pattern) <
      roundedSize (Format.binary64.units pattern) := by
  obtain ⟨middle, hmiddle, hhalf⟩ := exists_half
  have hlt : middle < pattern := by
    rw [← Format.binary64.units_strictMono.lt_iff_lt]
    omega
  have hle := roundedSize_mono (show Format.binary64.one - Format.binary64.units pattern ≤
    Format.binary64.units middle by omega)
  rw [roundedSize_units hmiddle] at hle
  rw [roundedSize_units hfinite]
  exact hle.trans_lt hlt

theorem abs_rounded (negative : Bool) (units : ℕ) :
    (rounded negative units 1).abs = ofMagnitude false (roundedSize units) := by
  rw [← ofMagnitude_false, rounded,
    magnitude_ofMagnitude _ ((Nat.min_le_right _ _).trans_lt infinity_lt)]
  rfl

theorem abs_sub_eq {y : Binary64} (hx : x.isFinite = true) (hy : y.isFinite = true) :
    (sub x y).abs = ofMagnitude false (roundedSize (x.signedUnits - y.signedUnits).natAbs) := by
  rw [sub_eq_add_neg, add_of_finite hx (by rwa [isFinite_neg]), ofUnits_eq_rounded,
    abs_rounded, signedUnits_neg, ← Int.sub_eq_add_neg]

theorem lt_ofMagnitude_roundedSize (units other : ℕ) :
    lt (ofMagnitude false (roundedSize units)) (ofMagnitude false (roundedSize other)) =
      decide (roundedSize units < roundedSize other) := by
  have hle : ∀ n, roundedSize n ≤ Format.binary64.infinity := fun n => Nat.min_le_right _ _
  have hword : ∀ n, roundedSize n < 2 ^ 63 := fun n => (hle n).trans_lt infinity_lt
  rw [lt, ordered_eq_true (isNan_ofMagnitude _ (hle _)) (isNan_ofMagnitude _ (hle _)),
    rank_ofMagnitude_false (hword _), rank_ofMagnitude_false (hword _), Bool.true_and]
  simp only [Nat.cast_lt]

theorem signedUnits_integral (x : Binary64) {n : ℕ} (h : n ≤ 2 ^ 53) :
    (x.integral n).signedUnits =
      if x.isNegative then -((n * Format.binary64.one : ℕ) : ℤ)
      else (n * Format.binary64.one : ℕ) := by
  obtain ⟨_, hsign, hunits⟩ := x.fields_integral h
  rw [signedUnits, hsign, hunits]

theorem units_two : two.units = 2 * Format.binary64.one := by decide +kernel

theorem div_two {n : ℕ} (hfinite : x.isFinite = true) (hle : n ≤ 2 ^ 53)
    (h : x.units = n * Format.binary64.one) :
    ∃ pattern < Format.binary64.infinity, div x two = ofMagnitude x.isNegative pattern ∧
      2 * Format.binary64.units pattern = n * Format.binary64.one := by
  obtain ⟨pattern, hpattern⟩ := Format.binary64.exists_units_mul_pow
    (show n ≤ 2 * Format.binary64.hiddenBit from hle) 1073
  have hdouble : 2 * Format.binary64.units pattern = n * Format.binary64.one := by
    rw [hpattern, Format.one_eq, Nat.mul_left_comm, show 1074 = 1073 + 1 from rfl,
      Nat.pow_succ' (n := 1073)]
  have hbound := Format.lt_infinity_of_units_le hle
    (show Format.binary64.units pattern ≤ n * Format.binary64.one by omega)
  refine ⟨pattern, hbound, ?_, hdouble⟩
  have hnearest : Format.binary64.nearest (x.units * Format.binary64.one) two.units =
      pattern := by
    have hpos := Format.one_pos
    apply Format.binary64.nearest_eq (by decide)
    · rw [units_two]
      omega
    · rw [h, units_two, ← Nat.mul_assoc, Nat.mul_comm _ 2, hdouble]
  have hsign : two.isNegative = false := by decide
  have hdiv : div x two = rounded (x.isNegative ^^ two.isNegative)
      (x.units * Format.binary64.one) two.units := by
    simp [div, isInfinite_of_isFinite hfinite,
      isInfinite_of_isFinite (show two.isFinite = true by decide),
      show two.isZero = false by decide]
  rw [hdiv, rounded, hnearest, min_eq_left hbound.le, hsign, Bool.xor_false]

/-- Of the finite values the integers are those that are their own floor. -/
theorem eq_floor (hfinite : x.isFinite = true) : eq x.floor x = x.isInteger := by
  have hnan := (isInfinite_of_isFinite hfinite).2
  by_cases h : x.hasFraction = true
  · obtain ⟨n, hn, hfloor⟩ := exists_floor_eq h
    obtain ⟨hintegral, -, hunits⟩ := x.fields_integral hn
    have hinteger := isInteger_of_units hintegral hunits
    have hne : x.floor.rank ≠ x.rank := by
      rw [hfloor, Ne, rank_eq_rank_iff]
      rintro (heq | ⟨-, hzero⟩)
      · rw [heq] at hinteger
        exact not_hasFraction_of_isInteger hinteger h
      · exact not_hasFraction_of_isInteger (isInteger_of_isZero hzero) h
    rw [eq, beq_false_of_ne hne, Bool.and_false, eq_comm, ← Bool.not_eq_true]
    exact fun hself => not_hasFraction_of_isInteger hself h
  · rw [floor, toIntegral_of_not_hasFraction h, quieted_of_isFinite hfinite, eq,
      ordered_eq_true hnan hnan, beq_self_eq_true,
      isInteger_of_not_hasFraction hfinite h]
    rfl

theorem halfIsIntegral_eq {n : ℕ} (hfinite : x.isFinite = true) (hle : n ≤ 2 ^ 53)
    (h : x.units = n * Format.binary64.one) :
    halfIsIntegral x = decide (n % 2 = 0) := by
  obtain ⟨pattern, hbound, hdiv, hdouble⟩ := div_two hfinite hle h
  have hword := hbound.trans infinity_lt
  have hhalf : (div x two).isFinite = true ∧
      (div x two).units = Format.binary64.units pattern := by
    rw [hdiv, isFinite_iff, units, magnitude_ofMagnitude _ hword]
    exact ⟨hbound, rfl⟩
  rw [halfIsIntegral, eq_floor hhalf.1, isInteger, hhalf.1, hhalf.2, Bool.true_and,
    Bool.eq_iff_iff, beq_iff_eq, decide_eq_true_eq]
  constructor
  · intro hmod
    have hcancel : n = 2 * (Format.binary64.units pattern / Format.binary64.one) := by
      apply Nat.eq_of_mul_eq_mul_right Format.one_pos
      rw [← hdouble, Nat.mul_assoc, Nat.div_mul_cancel (Nat.dvd_of_mod_eq_zero hmod)]
    omega
  · intro heven
    obtain ⟨half, rfl⟩ := Nat.dvd_of_mod_eq_zero heven
    have hcancel : Format.binary64.units pattern = half * Format.binary64.one := by
      apply Nat.eq_of_mul_eq_mul_left Nat.two_pos
      rw [hdouble, Nat.mul_assoc]
    rw [hcancel, Nat.mul_mod_left]

/-- How many units a value is away from `n` on its own side of zero. -/
def distance (x : Binary64) (n : ℕ) : ℕ :=
  (((n * Format.binary64.one : ℕ) : ℤ) - x.units).natAbs

theorem distance_whole (x : Binary64) :
    distance x x.whole = x.units % Format.binary64.one := by
  have hsplit := x.units_eq_whole_add
  rw [distance]
  generalize x.whole * Format.binary64.one = below at hsplit
  omega

theorem distance_whole_succ (x : Binary64) :
    distance x (x.whole + 1) =
      Format.binary64.one - x.units % Format.binary64.one := by
  have hsplit := x.units_eq_whole_add
  have hrest := Nat.mod_lt x.units Format.one_pos
  rw [distance, Nat.add_mul, Nat.one_mul]
  generalize x.whole * Format.binary64.one = below at hsplit
  omega

theorem abs_sub_integral (hfinite : x.isFinite = true) {n : ℕ} (h : n ≤ 2 ^ 53) :
    (sub (x.integral n) x).abs = ofMagnitude false (roundedSize (distance x n)) ∧
      (sub x (x.integral n)).abs = ofMagnitude false (roundedSize (distance x n)) := by
  have hintegral := (x.fields_integral h).1
  have hunits := x.signedUnits_integral h
  have hsize : ((x.integral n).signedUnits - x.signedUnits).natAbs = distance x n := by
    rw [hunits, signedUnits, distance]
    split <;> omega
  rw [abs_sub_eq hintegral hfinite, abs_sub_eq hfinite hintegral, hsize,
    ← Int.natAbs_neg, Int.neg_sub, hsize]
  exact ⟨rfl, rfl⟩

theorem closerNeighbour_of_hasFraction (h : x.hasFraction = true) {up down : ℕ}
    (hup : x.ceil = x.integral up) (hdown : x.floor = x.integral down)
    (hupLe : up ≤ 2 ^ 53) (hdownLe : down ≤ 2 ^ 53) :
    closerNeighbour x = x.integral
      (if roundedSize (distance x up) < roundedSize (distance x down) then up
        else if roundedSize (distance x down) < roundedSize (distance x up) then down
        else if up % 2 = 0 then up
        else down) := by
  have hfinite := (hasFraction_iff.mp h).1
  have hzero : eq x zero = false := by
    rw [eq, Bool.and_eq_false_iff, beq_eq_false_iff_ne, Ne, rank_eq_rank_iff]
    right
    rintro (rfl | ⟨hself, -⟩)
    · exact absurd h (by decide +kernel)
    · exact not_hasFraction_of_isInteger (isInteger_of_isZero hself) h
  obtain ⟨hintegral, -, hunits⟩ := x.fields_integral hupLe
  simp only [closerNeighbour, hup, hdown, hzero, (abs_sub_integral hfinite hupLe).1,
    (abs_sub_integral hfinite hdownLe).2, lt_ofMagnitude_roundedSize,
    halfIsIntegral_eq hintegral hupLe hunits, decide_eq_true_eq, Bool.false_eq_true,
    if_false]
  split_ifs <;> rfl

/-- The parts of the number one keep their order when they are rounded, as long as
one of them is a value. -/
theorem compare_parts {part : ℕ} (h : ∃ pattern, Format.binary64.units pattern = part)
    (hlt : part < Format.binary64.one) :
    (roundedSize part < roundedSize (Format.binary64.one - part) ↔
      2 * part < Format.binary64.one) ∧
    (roundedSize (Format.binary64.one - part) < roundedSize part ↔
      Format.binary64.one < 2 * part) := by
  obtain ⟨pattern, rfl⟩ := h
  have hfinite : pattern < Format.binary64.infinity :=
    Format.lt_infinity_of_units_le (show 1 ≤ 2 ^ 53 by decide) (by rw [one_mul]; exact hlt.le)
  rcases lt_trichotomy (2 * Format.binary64.units pattern) Format.binary64.one with
    hbelow | htie | habove
  · have hless := roundedSize_lt_of_lt_half hbelow
    omega
  · rw [show Format.binary64.one - Format.binary64.units pattern =
      Format.binary64.units pattern by omega]
    omega
  · have hless := roundedSize_lt_of_half_lt hfinite habove
    omega

theorem nearest_eq_closerNeighbour (x : Binary64) : x.nearest = closerNeighbour x := by
  by_cases h : x.hasFraction = true
  · have hwhole := whole_lt_of_hasFraction h
    obtain ⟨hlow, hhigh⟩ := compare_parts
      (Format.exists_units_mod_one x.magnitude) (Nat.mod_lt x.units Format.one_pos)
    rw [← units] at hlow hhigh
    rw [nearest, toIntegral_of_hasFraction h, roundHalfEven,
      closerNeighbour_of_hasFraction h (ceil_eq_integral h) (floor_eq_integral h)
        (by split <;> omega) (by split <;> omega)]
    congr 1
    -- Which neighbour is the farther from zero depends on the sign.
    cases x.isNegative with
    | false =>
        simp only [Bool.false_eq_true, if_false, distance_whole, distance_whole_succ, hlow,
          hhigh, ← whole.eq_1]
        split_ifs <;> omega
    | true =>
        simp only [if_true, distance_whole, distance_whole_succ, hlow, hhigh, ← whole.eq_1]
        split_ifs <;> omega
  · rw [closerNeighbour_of_not_hasFraction h, nearest, toIntegral_of_not_hasFraction h]

/-- Every value is rounded to the nearest integral value with its sign, and choosing
the neighbour at the lesser computed distance comes to the same. -/
theorem isNearestIntegral_nearest (x : Binary64) :
    IsNearestIntegral x x.nearest ∧ x.nearest = closerNeighbour x :=
  ⟨isNearestIntegral_of_nearest x, nearest_eq_closerNeighbour x⟩

end WasmFloat.Binary64
