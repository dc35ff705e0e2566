import WasmFloat.Proofs.DecimalRounding

namespace WasmFloat

namespace Decimal

variable {pattern : ℕ}

def size (pattern : ℕ) : ℚ := Format.binary64.units pattern / 2 ^ 1074

def ReadsBack (pattern : ℕ) (q : ℚ) : Prop := Binary64.nearestMagnitude q = pattern

theorem readsBack_size (pattern : ℕ) : ReadsBack pattern (size pattern) :=
  Binary64.nearestMagnitude_units pattern

theorem readsAs_iff (h : pattern < Format.binary64.infinity) (number : Decimal) :
    number.readsAs pattern = true ↔ ReadsBack pattern number.value := by
  rw [readsAs, beq_iff_eq, ReadsBack, ← Binary64.ofFinite?_eq_iff h, ofFinite?_nearest,
    Binary64.ofFinite?_eq_iff h]

def Shields (q near far : ℚ) : Prop :=
  far ≤ near ∧ near ≤ q ∨ q ≤ near ∧ near ≤ far

theorem Shields.abs_le {q near far : ℚ} (h : Shields q near far) :
    |near - q| ≤ |far - q| := by
  rcases h with ⟨hfar, hnear⟩ | ⟨hnear, hfar⟩
  · rw [abs_of_nonpos (by linarith), abs_of_nonpos (by linarith)]
    linarith
  · rw [abs_of_nonneg (by linarith), abs_of_nonneg (by linarith)]
    linarith

theorem Shields.readsBack {near far : ℚ} (h : Shields (size pattern) near far)
    (hnonneg : 0 ≤ far) (hfar : ReadsBack pattern far) : ReadsBack pattern near := by
  have hsize := readsBack_size pattern
  rcases h with ⟨hle, hge⟩ | ⟨hle, hge⟩
  · exact Binary64.nearestMagnitude_between hnonneg hfar hsize hle hge
  · refine Binary64.nearestMagnitude_between ?_ hsize hfar hle hge
    exact div_nonneg (Nat.cast_nonneg _) (pow_nonneg (by decide) _)

theorem divUp_bounds (n : ℕ) {d : ℕ} (hd : 0 < d) :
    n ≤ (n + d - 1) / d * d ∧ (n + d - 1) / d ≤ n / d + 1 ∧
      (2 * (n % d) < d → 2 * n ≤ (n / d + (n + d - 1) / d) * d) ∧
      (d ≤ 2 * (n % d) → (n / d + (n + d - 1) / d) * d ≤ 2 * n) := by
  have hsplit := Nat.div_add_mod' n d
  have hrest := Nat.mod_lt n hd
  have hup : (n + d - 1) / d = if n % d = 0 then n / d else n / d + 1 := by
    split
    · exact Nat.div_eq_of_lt_le (by omega) (by rw [Nat.add_mul]; omega)
    · exact Nat.div_eq_of_lt_le (by rw [Nat.add_mul]; omega)
        (by rw [Nat.add_mul, Nat.add_mul]; omega)
  rw [hup, Nat.add_mul]
  split
  · omega
  · rw [Nat.add_mul]
    omega

/-- The value and the points of a grid, all over the denominator that the search
computes with. -/
theorem exists_scale (pattern : ℕ) (exponent : ℤ) :
    ∃ scale : ℚ, 0 < scale ∧
      size pattern = (overGrid (Format.binary64.units pattern) exponent).1 * scale ∧
      ∀ m : ℕ, (Decimal.mk m exponent).value =
        (m * (overGrid (Format.binary64.units pattern) exponent).2 : ℕ) * scale := by
  have htwo : (0 : ℚ) < 2 ^ 1074 := pow_pos (by decide) _
  have hbelow : (0 : ℚ) < (10 ^ (-exponent).toNat : ℕ) := by positivity
  refine ⟨(2 ^ 1074 * (10 ^ (-exponent).toNat : ℕ) : ℚ)⁻¹, by positivity, ?_, fun m => ?_⟩
  · simp only [size, overGrid, tenPow, Nat.pow_eq, Nat.cast_mul]
    generalize (2 : ℚ) ^ 1074 = scale at htwo ⊢
    field_simp
  · rw [value, ten_zpow]
    simp only [overGrid, tenPow, Nat.pow_eq, Format.one_eq, Nat.cast_mul, Nat.cast_pow,
      Nat.cast_ofNat] at hbelow ⊢
    generalize (2 : ℚ) ^ 1074 = scale at htwo ⊢
    field_simp

/-- Of the two neighbours that a grid has, the one tried first is the nearest point,
and whatever point reads back, one of them does. -/
structure Neighbours (pattern : ℕ) (exponent : ℤ) (nearer farther : Decimal) : Prop where
  nearer_exponent : nearer.exponent = exponent
  farther_exponent : farther.exponent = exponent
  closest : |nearer.value - size pattern| ≤ |farther.value - size pattern|
  shields : ∀ m, Shields (size pattern) nearer.value (Decimal.mk m exponent).value ∨
    Shields (size pattern) farther.value (Decimal.mk m exponent).value

theorem Neighbours.swap {exponent : ℤ} {below above : Decimal} {isBelow : Prop}
    [Decidable isBelow] (hbelow : below.exponent = exponent)
    (habove : above.exponent = exponent)
    (hleft : isBelow → |below.value - size pattern| ≤ |above.value - size pattern|)
    (hright : ¬ isBelow → |above.value - size pattern| ≤ |below.value - size pattern|)
    (hshields : ∀ m, Shields (size pattern) below.value (Decimal.mk m exponent).value ∨
      Shields (size pattern) above.value (Decimal.mk m exponent).value) :
    Neighbours pattern exponent (if isBelow then below else above)
      (if isBelow then above else below) := by
  split
  · exact ⟨hbelow, habove, hleft ‹_›, hshields⟩
  · exact ⟨habove, hbelow, hright ‹_›, fun m => (hshields m).symm⟩

theorem exists_neighbours (pattern : ℕ) (exponent : ℤ) :
    ∃ nearer farther, Neighbours pattern exponent nearer farther ∧
      onGrid? pattern exponent =
        if nearer.readsAs pattern then some nearer
        else if farther.readsAs pattern then some farther
        else none := by
  obtain ⟨scale, hscale, hsize, hpoint⟩ := exists_scale pattern exponent
  have hdenominator : 0 < (overGrid (Format.binary64.units pattern) exponent).2 :=
    Nat.mul_pos Format.one_pos (Nat.pow_pos (by decide))
  unfold onGrid?
  generalize overGrid (Format.binary64.units pattern) exponent = ratio at *
  obtain ⟨n, d⟩ := ratio
  simp only at hsize hpoint hdenominator ⊢
  obtain ⟨hup, hstep, hlow, hhigh⟩ := divUp_bounds n hdenominator
  have hdown : n / d * d ≤ n := Nat.div_mul_le_self n d
  rw [Nat.add_mul] at hlow hhigh
  -- Points and the value compare as their numerators do.
  have hmono : ∀ {a b : ℕ}, a ≤ b → (a : ℚ) * scale ≤ b * scale := by
    intro a b hle
    exact mul_le_mul_of_nonneg_right (by exact_mod_cast hle) hscale.le
  have hbelow := hmono hdown
  have habove := hmono hup
  have htwice : ∀ a b : ℕ, ((a + b : ℕ) : ℚ) * scale = a * scale + b * scale := by
    intro a b
    rw [Nat.cast_add, add_mul]
  refine ⟨if 2 * (n % d) < d then ⟨n / d, exponent⟩ else ⟨(n + d - 1) / d, exponent⟩,
    if 2 * (n % d) < d then ⟨(n + d - 1) / d, exponent⟩ else ⟨n / d, exponent⟩,
    Neighbours.swap rfl rfl ?_ ?_ ?_, rfl⟩
  · intro hhalf
    have hmiddle := hmono (hlow hhalf)
    rw [Nat.two_mul, htwice, htwice] at hmiddle
    rw [hpoint, hpoint, hsize, abs_of_nonpos (by linarith), abs_of_nonneg (by linarith)]
    linarith
  · intro hhalf
    have hmiddle := hmono (hhigh (Nat.le_of_not_lt hhalf))
    rw [Nat.two_mul, htwice, htwice] at hmiddle
    rw [hpoint, hpoint, hsize, abs_of_nonneg (by linarith), abs_of_nonpos (by linarith)]
    linarith
  · intro m
    rw [hpoint, hpoint, hpoint, hsize]
    rcases Nat.lt_or_ge (n / d) m with hlt | hge
    · exact Or.inr (Or.inr ⟨habove, hmono (Nat.mul_le_mul_right d (hstep.trans hlt))⟩)
    · exact Or.inl (Or.inl ⟨hmono (Nat.mul_le_mul_right d hge), hbelow⟩)

theorem not_readsBack_of_onGrid? (h : pattern < Format.binary64.infinity) {exponent : ℤ}
    (hnone : onGrid? pattern exponent = none) (m : ℕ) :
    ¬ ReadsBack pattern (Decimal.mk m exponent).value := by
  obtain ⟨nearer, farther, hneighbours, hgrid⟩ := exists_neighbours pattern exponent
  rw [hgrid] at hnone
  intro hreads
  have hnonneg := (Decimal.mk m exponent).value_nonneg
  split at hnone
  · exact nomatch hnone
  · rename_i hnearer
    split at hnone
    · exact nomatch hnone
    · rename_i hfarther
      rw [readsAs_iff h] at hnearer hfarther
      rcases hneighbours.shields m with hshields | hshields
      · exact hnearer (hshields.readsBack hnonneg hreads)
      · exact hfarther (hshields.readsBack hnonneg hreads)

/-- A number on a grid that reads back, the nearest of its grid. -/
structure IsNearestOnGrid (pattern : ℕ) (exponent : ℤ) (number : Decimal) : Prop where
  exponent_eq : number.exponent = exponent
  reads : ReadsBack pattern number.value
  closest : ∀ m, ReadsBack pattern (Decimal.mk m exponent).value →
    |number.value - size pattern| ≤ |(Decimal.mk m exponent).value - size pattern|

theorem isNearestOnGrid_of_onGrid? (h : pattern < Format.binary64.infinity)
    {exponent : ℤ} {number : Decimal} (hsome : onGrid? pattern exponent = some number) :
    IsNearestOnGrid pattern exponent number := by
  obtain ⟨nearer, farther, hneighbours, hgrid⟩ := exists_neighbours pattern exponent
  rw [hgrid] at hsome
  split at hsome
  · rename_i hnearer
    cases hsome
    refine ⟨hneighbours.nearer_exponent, (readsAs_iff h _).mp hnearer, fun m _ => ?_⟩
    rcases hneighbours.shields m with hshields | hshields
    · exact hshields.abs_le
    · exact hneighbours.closest.trans hshields.abs_le
  · rename_i hnearer
    split at hsome
    · rename_i hfarther
      cases hsome
      refine ⟨hneighbours.farther_exponent, (readsAs_iff h _).mp hfarther,
        fun m hreads => ?_⟩
      rcases hneighbours.shields m with hshields | hshields
      · rw [readsAs_iff h] at hnearer
        exact absurd (hshields.readsBack (value_nonneg _) hreads) hnearer
      · exact hshields.abs_le
    · exact nomatch hsome

/-- The nearest number of its grid, which is the coarsest one unless the number is a
power of ten. -/
structure IsCoarsest (pattern : ℕ) (number : Decimal) : Prop where
  nearest : IsNearestOnGrid pattern number.exponent number
  coarser : ∀ m, ReadsBack pattern (Decimal.mk m (number.exponent + 1)).value →
    number.coefficient = 1

theorem isCoarsest_search (h : pattern < Format.binary64.infinity) (steps : ℕ)
    (hcoarser : ∀ m, ¬ ReadsBack pattern
      (Decimal.mk m (finestExponent + (steps + 1 : ℕ))).value) :
    IsCoarsest pattern (search pattern steps) := by
  -- Down to the finest grid the search keeps to this: nothing coarser reads back.
  induction steps with
  | zero =>
      have hvalue : (onFinestGrid pattern).value = size pattern :=
        value_onFinestGrid pattern
      refine ⟨⟨rfl, ?_, fun m _ => ?_⟩, fun m hreads => absurd hreads (hcoarser m)⟩
      · rw [search, hvalue]
        exact readsBack_size pattern
      · rw [search, hvalue, sub_self, abs_zero]
        exact abs_nonneg _
  | succ steps ih =>
      rw [search]
      split
      · rename_i number hsome
        have hnearest := isNearestOnGrid_of_onGrid? h hsome
        have hexponent := hnearest.exponent_eq
        refine ⟨hexponent ▸ hnearest, fun m hreads => ?_⟩
        rw [hexponent, Int.add_assoc] at hreads
        exact absurd hreads (hcoarser m)
      · rename_i hnone
        exact ih (not_readsBack_of_onGrid? h hnone)

theorem ReadsBack.pos {q : ℚ} (h : ReadsBack pattern q) (hpos : 0 < pattern)
    (hnonneg : 0 ≤ q) : 0 < q := by
  rcases hnonneg.lt_or_eq with hlt | rfl
  · exact hlt
  · have hzero := Binary64.nearestMagnitude_units 0
    rw [Format.units_zero, Nat.cast_zero, zero_div] at hzero
    rw [ReadsBack, hzero] at h
    exact absurd h hpos.ne

theorem ReadsBack.coefficient_pos {number : Decimal} (h : ReadsBack pattern number.value)
    (hpos : 0 < pattern) : 0 < number.coefficient := by
  have hvalue := h.pos hpos number.value_nonneg
  rw [value] at hvalue
  exact_mod_cast pos_of_mul_pos_left hvalue (zpow_pos (by decide) _).le

theorem value_one (exponent : ℤ) : (Decimal.mk 1 exponent).value = 10 ^ exponent := by
  rw [value, Nat.cast_one, one_mul]

/-- Above the value only one point of a grid can be the nearest. -/
theorem IsNearestOnGrid.coefficient_eq_one {exponent : ℤ} {number : Decimal}
    (h : IsNearestOnGrid pattern exponent number) (hpos : 0 < pattern)
    (hsmall : size pattern ≤ 10 ^ exponent) : number.coefficient = 1 := by
  obtain ⟨coefficient, exponent⟩ := number
  obtain ⟨rfl, hreads, hclosest⟩ := h
  have hten : (0 : ℚ) < 10 ^ exponent := zpow_pos (by decide) _
  have hcoefficient : 1 ≤ coefficient := hreads.coefficient_pos hpos
  have hle : (10 : ℚ) ^ exponent ≤ (Decimal.mk coefficient exponent).value := by
    have hcast : (1 : ℚ) ≤ coefficient := by exact_mod_cast hcoefficient
    exact le_mul_of_one_le_left hten.le hcast
  have hclose := hclosest 1 (by
    rw [value_one]
    exact Shields.readsBack (Or.inr ⟨hsmall, hle⟩) (value_nonneg _) hreads)
  rw [value_one, abs_of_nonneg (by linarith), abs_of_nonneg (by linarith),
    sub_le_sub_iff_right, value] at hclose
  have hle : (coefficient : ℚ) ≤ 1 := le_of_mul_le_mul_right (by simpa using hclose) hten
  exact le_antisymm (by exact_mod_cast hle) hcoefficient

theorem size_le_coarsest (pattern : ℕ) :
    size pattern ≤ 10 ^ (finestExponent + coarsestStep pattern) := by
  have hvalue : (onFinestGrid pattern).value = size pattern := value_onFinestGrid pattern
  have hdigits : (onFinestGrid pattern).coefficient < 10 ^ coarsestStep pattern :=
    (Nat.length_toDigits_le_iff (by decide) Nat.length_toDigits_pos).mp le_rfl
  rw [← hvalue, value, add_comm, zpow_add₀ (by decide), zpow_natCast]
  refine mul_le_mul_of_nonneg_right ?_ (zpow_pos (by decide) _).le
  exact_mod_cast hdigits.le

theorem isCoarsest_shortest (h : pattern < Format.binary64.infinity) (hpos : 0 < pattern) :
    IsCoarsest pattern (shortest pattern) := by
  have hsmall := size_le_coarsest pattern
  obtain ⟨steps, hsteps⟩ : ∃ steps, coarsestStep pattern = steps + 1 :=
    Nat.exists_eq_succ_of_ne_zero Nat.length_toDigits_pos.ne'
  rw [shortest, if_neg hpos.ne']
  rw [hsteps] at hsmall ⊢
  rw [search]
  split
  · rename_i number hsome
    have hnearest := isNearestOnGrid_of_onGrid? h hsome
    have hexponent := hnearest.exponent_eq
    exact ⟨hexponent ▸ hnearest, fun _ _ => hnearest.coefficient_eq_one hpos hsmall⟩
  · rename_i hnone
    exact isCoarsest_search h steps (not_readsBack_of_onGrid? h hnone)

theorem value_le_ten_zpow {number : Decimal} {digits : ℕ}
    (h : number.coefficient ≤ 10 ^ digits) :
    number.value ≤ 10 ^ (number.exponent + digits) := by
  rw [value, add_comm, zpow_add₀ (by decide), zpow_natCast]
  exact mul_le_mul_of_nonneg_right (by exact_mod_cast h) (zpow_pos (by decide) _).le

theorem ten_zpow_le_value {number : Decimal} {digits : ℕ}
    (h : 10 ^ digits ≤ number.coefficient) :
    (10 : ℚ) ^ (number.exponent + digits) ≤ number.value := by
  rw [value, add_comm, zpow_add₀ (by decide), zpow_natCast]
  exact mul_le_mul_of_nonneg_right (by exact_mod_cast h) (zpow_pos (by decide) _).le

/-- The unit is five times this power of ten, less a little. -/
theorem ten_zpow_units :
    (3 : ℚ) < 20 * (10 ^ (-324 : ℤ) * 2 ^ 1074) ∧
      (19 : ℚ) * (10 ^ (-324 : ℤ) * 2 ^ 1074) < 4 := by
  have hlow : 3 * 10 ^ 324 < 20 * 2 ^ 1074 := by decide +kernel
  have hhigh : 19 * 2 ^ 1074 < 4 * 10 ^ 324 := by decide +kernel
  have hten : (0 : ℚ) < 10 ^ 324 := pow_pos (by decide) _
  have hlowCast : (3 * 10 ^ 324 : ℚ) < 20 * 2 ^ 1074 := by exact_mod_cast hlow
  have hhighCast : (19 * 2 ^ 1074 : ℚ) < 4 * 10 ^ 324 := by exact_mod_cast hhigh
  rw [zpow_neg, show (324 : ℤ) = ((324 : ℕ) : ℤ) from rfl, zpow_natCast]
  clear hlow hhigh
  generalize (2 : ℚ) ^ 1074 = scale at hlowCast hhighCast ⊢
  generalize (10 : ℚ) ^ 324 = tens at hten hlowCast hhighCast ⊢
  rw [inv_mul_eq_div, mul_div_assoc', mul_div_assoc', lt_div_iff₀ hten, div_lt_iff₀ hten]
  exact ⟨hlowCast, hhighCast⟩

/-- A power of ten more than a twentieth of itself above a few units is past the
midpoint above them. -/
theorem lt_of_few_units {exponent : ℤ} {kept : ℕ} (hpos : 0 < kept) (hle : kept ≤ 9)
    (h : (2 * kept : ℚ) < 19 * (10 ^ exponent * 2 ^ 1074)) :
    (kept + (kept + 1) : ℚ) < 2 * (10 ^ exponent * 2 ^ 1074 * 10) := by
  obtain ⟨hlow, hhigh⟩ := ten_zpow_units
  have hscale : (0 : ℚ) < 2 ^ 1074 := pow_pos (by decide) _
  have hone : (1 : ℚ) ≤ kept := by exact_mod_cast hpos
  have hnine : (kept : ℚ) ≤ 9 := by exact_mod_cast hle
  generalize (2 : ℚ) ^ 1074 = scale at h hlow hhigh hscale ⊢
  rcases lt_trichotomy exponent (-324) with hbelow | rfl | habove
  · have hpow : (10 : ℚ) ^ (exponent + 1) ≤ 10 ^ (-324 : ℤ) :=
      zpow_le_zpow_right₀ (by decide) hbelow
    rw [zpow_add_one₀ (by decide)] at hpow
    have hmul := mul_le_mul_of_nonneg_right hpow hscale.le
    linarith
  · generalize (10 : ℚ) ^ (-324 : ℤ) * scale = least at h hlow hhigh ⊢
    have hsmall : (kept : ℚ) < (2 : ℕ) := by
      push_cast
      linarith
    obtain rfl : kept = 1 := by
      rw [Nat.cast_lt] at hsmall
      omega
    push_cast
    linarith
  · have hpow : (10 : ℚ) ^ (-324 + 1 : ℤ) ≤ 10 ^ exponent :=
      zpow_le_zpow_right₀ (by decide) habove
    rw [zpow_add_one₀ (by decide)] at hpow
    have hmul := mul_le_mul_of_nonneg_right hpow hscale.le
    linarith

/-- Half a step is more than a twentieth of a number for the least numbers only. -/
theorem few_steps {kept : ℕ} {step tenth : ℚ} (hstep : 0 < step)
    (hfar : 2 * (kept * step) < 19 * tenth)
    (hmiddle : 2 * (tenth * 10) ≤ kept * step + (kept + 1) * step) : kept ≤ 9 := by
  have hlt : ((2 * kept : ℕ) : ℚ) < (19 : ℕ) := by
    push_cast
    exact lt_of_mul_lt_mul_right
      (show (2 * kept : ℚ) * step < 19 * step by linarith) hstep.le
  rw [Nat.cast_lt] at hlt
  omega

/-- A power of ten that reads back is at most a twentieth of itself above the value. -/
theorem ReadsBack.power_le {exponent : ℤ} (h : ReadsBack pattern (10 ^ (exponent + 1)))
    (hpos : 0 < pattern) : 19 * (10 : ℚ) ^ exponent ≤ 2 * size pattern := by
  have htwo : (0 : ℚ) < 2 ^ 1074 := pow_pos (by decide) _
  have hnearest := Binary64.isNearest_nearestMagnitude
    (zpow_pos (show (0 : ℚ) < 10 by decide) (exponent + 1)).le
  rw [h] at hnearest
  have hmiddle := hnearest.le_midpoint (Nat.lt_succ_self pattern)
  by_contra hfar
  rw [not_le, size, mul_div_assoc', div_lt_iff₀ htwo, mul_assoc] at hfar
  rw [zpow_add_one₀ (by decide), mul_right_comm] at hmiddle
  obtain ⟨excess, kept, rfl, hlow, hhigh⟩ := Format.binary64.exists_excess pattern
  have hnext := Format.binary64.cast_units_add excess
    (show excess = 0 ∨ Format.binary64.hiddenBit ≤ kept + 1 by omega) hhigh
  rw [Format.binary64.cast_units_add excess hlow hhigh.le] at hmiddle hfar
  rw [Nat.succ_eq_add_one, Nat.add_assoc, hnext, Nat.cast_add_one] at hmiddle
  have hfew := few_steps (pow_pos (by decide) excess) hfar hmiddle
  have hhidden : 9 < Format.binary64.hiddenBit := by decide
  obtain rfl : excess = 0 := hlow.resolve_right (by omega)
  rw [pow_zero, mul_one] at hmiddle hfar
  rw [mul_one] at hmiddle
  exact hmiddle.not_gt (lt_of_few_units (by omega) hfew hfar)

namespace IsCoarsest

variable {number other : Decimal}

theorem coefficient_eq_one (h : IsCoarsest pattern number)
    (hreads : ReadsBack pattern other.value) (hlt : number.exponent < other.exponent) :
    number.coefficient = 1 := by
  obtain ⟨coefficient, exponent⟩ := other
  rw [value_refine coefficient (Int.add_one_le_of_lt hlt)] at hreads
  exact h.coarser _ hreads

theorem not_ten_dvd (h : IsCoarsest pattern number) (hpos : 0 < pattern) :
    ¬ 10 ∣ number.coefficient := by
  rintro ⟨m, hm⟩
  have hcoefficient := h.nearest.reads.coefficient_pos hpos
  have hvalue : (Decimal.mk m (number.exponent + 1)).value = number.value := by
    rw [value, value, hm, zpow_add_one₀ (by decide)]
    push_cast
    ring
  have hone := h.coarser m (by rw [hvalue]; exact h.nearest.reads)
  omega

/-- Between a number that has more than so many digits and one on a finer grid lies a
power of ten. -/
theorem readsBack_power (h : IsCoarsest pattern number)
    (hreads : ReadsBack pattern other.value) {digits : ℕ}
    (hless : other.value ≤ 10 ^ (number.exponent + digits))
    (hmore : 10 ^ digits ≤ number.coefficient) :
    ReadsBack pattern (10 ^ (number.exponent + digits)) :=
  Binary64.nearestMagnitude_between other.value_nonneg hreads h.nearest.reads hless
    (ten_zpow_le_value hmore)

theorem digits_eq_zero (h : IsCoarsest pattern number) {digits : ℕ}
    (hreads : ReadsBack pattern (10 ^ (number.exponent + digits)))
    (hmore : 10 ^ digits ≤ number.coefficient) : digits = 0 := by
  by_contra hne
  rw [← value_one] at hreads
  have hone := h.coefficient_eq_one hreads (show _ < number.exponent + digits by omega)
  rw [hone] at hmore
  exact absurd hmore (Nat.one_lt_pow hne (by decide)).not_ge

/-- No number that reads back has fewer digits. -/
theorem pow_le (h : IsCoarsest pattern number) (hpos : 0 < pattern)
    (hreads : ReadsBack pattern other.value) {digits : ℕ}
    (hdigits : 10 ^ digits ≤ number.coefficient) : 10 ^ digits ≤ other.coefficient := by
  have hcoefficient := hreads.coefficient_pos hpos
  rcases lt_or_ge number.exponent other.exponent with hlt | hge
  · rw [h.coefficient_eq_one hreads hlt] at hdigits
    exact hdigits.trans hcoefficient
  · by_contra hless
    have hbelow := (value_le_ten_zpow (not_le.mp hless).le).trans
      (zpow_le_zpow_right₀ (by decide) (Int.add_le_add_right hge digits))
    have hpower := h.readsBack_power hreads hbelow hdigits
    rw [h.digits_eq_zero hpower hdigits, pow_zero] at hless
    exact hless hcoefficient

/-- No number that reads back and has as many digits is nearer. Only a power of ten
can have one on a finer grid next to it. -/
theorem closest (h : IsCoarsest pattern number) (hpos : 0 < pattern)
    (hreads : ReadsBack pattern other.value) {digits : ℕ}
    (hdigits : 10 ^ digits ≤ number.coefficient)
    (hother : other.coefficient < 10 ^ (digits + 1)) :
    |number.value - size pattern| ≤ |other.value - size pattern| := by
  rcases le_or_gt number.exponent other.exponent with hle | hlt
  · obtain ⟨coefficient, exponent⟩ := other
    rw [value_refine coefficient hle] at hreads ⊢
    exact h.nearest.closest _ hreads
  obtain ⟨below, hbelow⟩ : ∃ below, number.exponent = below + 1 :=
    ⟨number.exponent - 1, by omega⟩
  have hbound : other.value ≤ 10 ^ (number.exponent + digits) := by
    refine (value_le_ten_zpow hother.le).trans (zpow_le_zpow_right₀ (by decide) ?_)
    push_cast
    omega
  have hpower := h.readsBack_power hreads hbound hdigits
  have hnone := h.digits_eq_zero hpower hdigits
  subst hnone
  rw [Nat.cast_zero, add_zero, hbelow] at hpower
  have hroom := hpower.power_le hpos
  have hten : (0 : ℚ) < 10 ^ below := zpow_pos (by decide) _
  have hnine : other.value ≤ 9 * 10 ^ below := by
    have hcoefficient : other.coefficient ≤ 9 := by omega
    refine mul_le_mul (by exact_mod_cast hcoefficient) ?_ (zpow_pos (by decide) _).le
      (by decide)
    exact zpow_le_zpow_right₀ (by decide) (by omega)
  have hclosest := h.nearest.closest 1 (by rwa [value_one, hbelow])
  rw [value_one, hbelow, zpow_add_one₀ (by decide)] at hclosest
  refine hclosest.trans ?_
  rw [abs_of_nonpos (show other.value - size pattern ≤ 0 by linarith), abs_le]
  constructor <;> linarith

end IsCoarsest

end Decimal

end WasmFloat
