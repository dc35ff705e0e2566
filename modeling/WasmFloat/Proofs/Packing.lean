import WasmFloat.Hexadecimal.Packing
import WasmFloat.Proofs.Nearest
import WasmFloat.Proofs.Window

namespace WasmFloat

namespace Hexadecimal

theorem toNat_shiftLeft {word : UInt64} {shift : ℕ} (hshift : shift < 64)
    (h : word.toNat * 2 ^ shift < 2 ^ 64) :
    (word <<< UInt64.ofNat shift).toNat = word.toNat * 2 ^ shift := by
  rw [UInt64.toNat_shiftLeft, UInt64.toNat_ofNat',
    Nat.mod_eq_of_lt (show shift < 2 ^ 64 by omega), Nat.mod_eq_of_lt hshift,
    Nat.shiftLeft_eq, Nat.mod_eq_of_lt h]

theorem toNat_one_shiftLeft {shift : ℕ} (h : shift < 64) :
    ((1 : UInt64) <<< UInt64.ofNat shift).toNat = 2 ^ shift := by
  have hlt : 2 ^ shift < 2 ^ 64 := Nat.pow_lt_pow_right (by decide) h
  have hone : (1 : UInt64).toNat = 1 := rfl
  rw [toNat_shiftLeft h (by rw [hone]; omega), hone, Nat.one_mul]

theorem toNat_shiftRight (word : UInt64) {shift : ℕ} (h : shift < 64) :
    (word >>> UInt64.ofNat shift).toNat = word.toNat / 2 ^ shift := by
  rw [UInt64.toNat_shiftRight, UInt64.toNat_ofNat',
    Nat.mod_eq_of_lt (show shift < 2 ^ 64 by omega), Nat.mod_eq_of_lt h,
    Nat.shiftRight_eq_div_pow]

theorem toNat_dropped (word : UInt64) {shift : ℕ} (h : shift < 64) :
    (dropped word shift).toNat = word.toNat % 2 ^ shift := by
  have hpos := Nat.two_pow_pos shift
  have hmask : ((1 : UInt64) <<< UInt64.ofNat shift - 1).toNat = 2 ^ shift - 1 := by
    have hle : (1 : UInt64) ≤ 1 <<< UInt64.ofNat shift := by
      rw [UInt64.le_iff_toNat_le, toNat_one_shiftLeft h]
      exact hpos
    rw [UInt64.toNat_sub_of_le _ _ hle, toNat_one_shiftLeft h]
    rfl
  rw [dropped, UInt64.toNat_and, hmask, Nat.and_two_pow_sub_one_eq_mod]

theorem roundsUp_iff (kept rest : UInt64) {shift : ℕ} (hpos : 0 < shift)
    (hle : shift ≤ 64) (sticky : Bool) :
    roundsUp kept rest shift sticky = true ↔
      2 ^ (shift - 1) < rest.toNat ∨
        (rest.toNat = 2 ^ (shift - 1) ∧ (sticky = true ∨ kept.toNat % 2 = 1)) := by
  have hhalf := toNat_one_shiftLeft (show shift - 1 < 64 by omega)
  have hodd : (kept &&& 1 == 1) = true ↔ kept.toNat % 2 = 1 := by
    rw [beq_iff_eq, ← UInt64.toNat_inj, UInt64.toNat_and,
      show (1 : UInt64).toNat = 2 ^ 1 - 1 from rfl, Nat.and_two_pow_sub_one_eq_mod]
    rfl
  unfold roundsUp
  simp only
  rw [Bool.or_eq_true, Bool.and_eq_true, Bool.or_eq_true, hodd, beq_iff_eq,
    decide_eq_true_iff, UInt64.lt_iff_toNat_lt, ← UInt64.toNat_inj, hhalf]

theorem toNat_shiftRightHalfEven (word : UInt64) {shift : ℕ} (hpos : 0 < shift)
    (hle : shift ≤ 64) (sticky : Bool) :
    (shiftRightHalfEven word shift sticky).toNat =
      if 2 ^ (shift - 1) < word.toNat % 2 ^ shift ∨
          (word.toNat % 2 ^ shift = 2 ^ (shift - 1) ∧
            (sticky = true ∨ word.toNat / 2 ^ shift % 2 = 1)) then
        word.toNat / 2 ^ shift + 1
      else word.toNat / 2 ^ shift := by
  have hword := word.toNat_lt
  have hkept : (if shift = 64 then 0 else word >>> UInt64.ofNat shift).toNat =
      word.toNat / 2 ^ shift := by
    split
    · rename_i hall
      rw [hall, Nat.div_eq_of_lt hword]
      rfl
    · exact toNat_shiftRight word (by omega)
  have hrest : (if shift = 64 then word else dropped word shift).toNat =
      word.toNat % 2 ^ shift := by
    split
    · rename_i hall
      rw [hall, Nat.mod_eq_of_lt hword]
    · exact toNat_dropped word (by omega)
  have hsmall : word.toNat / 2 ^ shift < 2 ^ 63 := by
    have htwo : 2 ^ 1 ≤ 2 ^ shift := Nat.pow_le_pow_right (by decide) hpos
    exact Nat.div_lt_of_lt_mul (by nlinarith)
  unfold shiftRightHalfEven
  rw [if_neg (by omega), if_neg (by omega)]
  simp only
  generalize (if shift = 64 then 0 else word >>> UInt64.ofNat shift) = kept at hkept
  generalize (if shift = 64 then word else dropped word shift) = rest at hrest
  rw [← hkept, ← hrest, apply_ite UInt64.toNat]
  congr 1
  · exact propext (roundsUp_iff kept rest hpos hle sticky)
  · rw [UInt64.toNat_add, show (1 : UInt64).toNat = 1 from rfl]
    omega

/-- The number `rest` lies below a place from which on the word has bits, and
the flag says whether it is zero. -/
structure TailBelow (word : UInt64) (sticky : Bool) (place : ℕ) (rest : ℚ) :
    Prop where
  dvd : 2 ^ place ∣ word.toNat
  nonneg : 0 ≤ rest
  lt : rest < 2 ^ place
  sticky : sticky = true ↔ 0 < rest

theorem TailBelow.add_lt {word : UInt64} {sticky : Bool} {place bits bound : ℕ}
    {rest : ℚ} (h : TailBelow word sticky place rest) (hplace : place ≤ bits)
    (hlt : bound < 2 ^ bits) (hdvd : 2 ^ place ∣ bound) :
    (bound : ℚ) + rest < 2 ^ bits := by
  obtain ⟨count, rfl⟩ := hdvd
  have hpow : 2 ^ bits = 2 ^ place * 2 ^ (bits - place) := by
    rw [← Nat.pow_add, Nat.add_sub_cancel' hplace]
  rw [hpow] at hlt
  have hcount := Nat.lt_of_mul_lt_mul_left hlt
  have hnat : 2 ^ place * count + 2 ^ place ≤ 2 ^ bits := by
    rw [hpow, ← Nat.mul_succ]
    exact Nat.mul_le_mul_left _ hcount
  have hcast : ((2 ^ place * count : ℕ) : ℚ) + 2 ^ place ≤ 2 ^ bits := by
    exact_mod_cast hnat
  linarith [h.lt]

theorem TailBelow.eq_zero {word : UInt64} {sticky : Bool} {place : ℕ} {rest : ℚ}
    (h : TailBelow word sticky place rest) (hsticky : ¬ sticky = true) :
    rest = 0 := by
  rw [h.sticky, not_lt] at hsticky
  exact le_antisymm hsticky h.nonneg

/-- Shifted past all its bits, a word is less than one half. -/
theorem TailBelow.roundsHalfEven_wide {word : UInt64} {sticky : Bool}
    {place shift : ℕ} {rest : ℚ} (h : TailBelow word sticky place rest)
    (hbits : place ≤ 64) (hwide : 64 < shift) :
    RoundsHalfEven ((word.toNat + rest) / 2 ^ shift) 0 := by
  have hword := h.add_lt hbits word.toNat_lt h.dvd
  have hnonneg := h.nonneg
  have hpow : (2 : ℚ) ^ 64 * 2 ≤ 2 ^ shift := by
    rw [← pow_succ]
    exact pow_le_pow_right₀ (by decide) hwide
  have hpos : (0 : ℚ) < 2 ^ shift := by positivity
  have hround : RoundsHalfEven
      ((0 : ℕ) + (word.toNat + rest) / 2 ^ shift) 0 := by
    apply RoundsHalfEven.down (by positivity)
    rw [← mul_div_assoc, div_lt_one hpos]
    exact Or.inl (by linarith)
  rw [Nat.cast_zero, zero_add] at hround
  exact hround

/-- The remainder compares with one half as the remainder and what lies below
it do, unless it is one half itself: then the flag decides. -/
theorem TailBelow.half_cases {word : UInt64} {sticky : Bool}
    {place half remainder : ℕ} {rest : ℚ} (h : TailBelow word sticky place rest)
    (hplace : place ≤ half) (hdvd : 2 ^ place ∣ remainder) :
    (2 ^ half < remainder ∧ (2 : ℚ) ^ half < remainder + rest) ∨
    (remainder = 2 ^ half ∧ sticky = true ∧ (2 : ℚ) ^ half < remainder + rest) ∨
    (remainder = 2 ^ half ∧ ¬ sticky = true ∧ remainder + rest = (2 : ℚ) ^ half) ∨
    (remainder < 2 ^ half ∧ remainder + rest < (2 : ℚ) ^ half) := by
  have hcast : ((2 ^ half : ℕ) : ℚ) = 2 ^ half := by rw [Nat.cast_pow, Nat.cast_ofNat]
  rcases Nat.lt_trichotomy remainder (2 ^ half) with hlt | heq | hgt
  · exact Or.inr (Or.inr (Or.inr ⟨hlt, h.add_lt hplace hlt hdvd⟩))
  · rw [heq, hcast]
    by_cases hsticky : sticky = true
    · have hpos := h.sticky.mp hsticky
      exact Or.inr (Or.inl ⟨rfl, hsticky, by linarith⟩)
    · exact Or.inr (Or.inr (Or.inl ⟨rfl, hsticky, by rw [h.eq_zero hsticky, add_zero]⟩))
  · have hgtCast : ((2 ^ half : ℕ) : ℚ) < remainder := Nat.cast_lt.mpr hgt
    rw [hcast] at hgtCast
    exact Or.inl ⟨hgt, by linarith [h.nonneg]⟩

/-- A single rounding serves the word and what lies below it. -/
theorem TailBelow.roundsHalfEven {word : UInt64} {sticky : Bool}
    {place shift : ℕ} {rest : ℚ} (h : TailBelow word sticky place rest)
    (hplace : place < shift) (hbits : place ≤ 64) :
    RoundsHalfEven ((word.toNat + rest) / 2 ^ shift)
      (shiftRightHalfEven word shift sticky).toNat := by
  rcases Nat.lt_or_ge 64 shift with hwide | hle
  · rw [shiftRightHalfEven, if_neg (by omega), if_pos hwide]
    exact h.roundsHalfEven_wide hbits hwide
  -- The tail stays below every remainder: both end at the place of the word's
  -- last bit.
  obtain ⟨half, rfl⟩ : ∃ half, shift = half + 1 := ⟨shift - 1, by omega⟩
  have hdvd : 2 ^ place ∣ word.toNat % 2 ^ (half + 1) :=
    (Nat.dvd_mod_iff (Nat.pow_dvd_pow 2 hplace.le)).mpr h.dvd
  have hmod := Nat.mod_lt word.toNat (Nat.two_pow_pos (half + 1))
  have hsplit : (word.toNat : ℚ) = 2 ^ (half + 1) *
      (word.toNat / 2 ^ (half + 1) : ℕ) + (word.toNat % 2 ^ (half + 1) : ℕ) := by
    exact_mod_cast (Nat.div_add_mod word.toNat (2 ^ (half + 1))).symm
  have hbelow := h.add_lt hplace.le hmod hdvd
  have hcases := h.half_cases (show place ≤ half by omega) hdvd
  have hnonneg := h.nonneg
  have hpos : (0 : ℚ) < 2 ^ half := by positivity
  rw [toNat_shiftRightHalfEven word (by omega) hle, Nat.add_sub_cancel, hsplit,
    add_assoc, add_div, mul_div_cancel_left₀ _ (by positivity)]
  generalize word.toNat / 2 ^ (half + 1) = kept
  generalize word.toNat % 2 ^ (half + 1) = remainder at hbelow hcases ⊢
  have htwice : 2 * ((remainder + rest) / 2 ^ (half + 1)) =
      (remainder + rest) / 2 ^ half := by
    rw [pow_succ]
    field_simp
  split
  · rename_i hup
    apply RoundsHalfEven.up
    · rw [div_lt_one (by positivity)]
      exact hbelow
    · rw [htwice, one_lt_div hpos, div_eq_one_iff_eq hpos.ne']
      rcases hcases with ⟨_, hgt⟩ | ⟨_, _, hgt⟩ | ⟨heq, hclear, htie⟩ | ⟨hlt, _⟩
      · exact Or.inl hgt
      · exact Or.inl hgt
      · rcases hup with hgt | ⟨_, hodd⟩
        · omega
        · exact Or.inr ⟨htie, hodd.resolve_left hclear⟩
      · omega
  · rename_i hdown
    rw [not_or, not_and_or, not_or] at hdown
    apply RoundsHalfEven.down (by positivity)
    rw [htwice, div_lt_one hpos, div_eq_one_iff_eq hpos.ne']
    rcases hcases with ⟨hgt, _⟩ | ⟨heq, hset, _⟩ | ⟨heq, _, htie⟩ | ⟨_, hlt⟩
    · exact absurd hgt hdown.1
    · exact absurd hset (hdown.2.resolve_left (not_not_intro heq)).1
    · have heven := (hdown.2.resolve_left (not_not_intro heq)).2
      exact Or.inr ⟨htie, by omega⟩
    · exact Or.inl hlt

theorem leadingZeros_bounds {word : UInt64} (h : word ≠ 0) :
    2 ^ 63 ≤ word.toNat * 2 ^ leadingZeros word ∧
      word.toNat * 2 ^ leadingZeros word < 2 ^ 64 ∧ leadingZeros word < 64 := by
  have hne : word.toNat ≠ 0 := by
    intro hzero
    exact h (UInt64.toNat_inj.mp hzero)
  have hlow := Nat.log2_self_le hne
  have hhigh : word.toNat < 2 ^ (word.toNat.log2 + 1) := Nat.lt_log2_self
  have hlog : word.toNat.log2 < 64 := (Nat.log2_lt hne).mpr word.toNat_lt
  have hpos := Nat.two_pow_pos (63 - word.toNat.log2)
  have hpow : 2 ^ 63 = 2 ^ word.toNat.log2 * 2 ^ (63 - word.toNat.log2) := by
    rw [← Nat.pow_add]
    congr 1
    omega
  have hnext : 2 ^ 64 =
      2 ^ (word.toNat.log2 + 1) * 2 ^ (63 - word.toNat.log2) := by
    rw [← Nat.pow_add]
    congr 1
    omega
  rw [leadingZeros, if_neg h]
  refine ⟨?_, ?_, by omega⟩
  · rw [hpow]
    exact Nat.mul_le_mul_right _ hlow
  · rw [hnext]
    exact Nat.mul_lt_mul_of_pos_right hhigh hpos

namespace Window

theorem toNat_normalized {window : Window} (h : window.significand ≠ 0) :
    window.normalized.toNat =
      window.significand.toNat * 2 ^ leadingZeros window.significand := by
  obtain ⟨_, hhigh, hlt⟩ := leadingZeros_bounds h
  exact toNat_shiftLeft hlt hhigh

/-- The number of a window that is not zero, with its leading bit at the top
of the word. -/
structure Leads (window : Window) (q : ℚ) (place : ℕ) (rest : ℚ) : Prop where
  value : q =
    (window.normalized.toNat + rest) * 2 ^ (window.leadExponent - 63)
  below : TailBelow window.normalized window.sticky place rest
  place_le : place ≤ 3
  top : 2 ^ 63 ≤ window.normalized.toNat

theorem Represents.leads {window : Window} {q tail : ℚ}
    (h : window.Represents q tail) (hne : window.significand ≠ 0) :
    ∃ place rest, window.Leads q place rest := by
  obtain ⟨hlow, hhigh, _⟩ := leadingZeros_bounds hne
  have hword := toNat_normalized hne
  have hpos : (0 : ℚ) < 2 ^ leadingZeros window.significand := by positivity
  have hvalue : q = (window.normalized.toNat +
      tail * 2 ^ leadingZeros window.significand) *
        2 ^ (window.leadExponent - 63) := by
    rw [h.value, hword, leadExponent, Nat.cast_mul, Nat.cast_pow, Nat.cast_ofNat,
      ← add_mul, mul_assoc, ← zpow_natCast, ← zpow_add₀ (by decide)]
    congr 2
    ring
  have hflag : window.sticky = true ↔
      0 < tail * 2 ^ leadingZeros window.significand := by
    rw [h.sticky, mul_pos_iff_of_pos_right hpos]
  have hnonneg := mul_nonneg h.tail_nonneg hpos.le
  by_cases hsticky : window.sticky = true
  · have hfew : leadingZeros window.significand ≤ 3 := by
      by_contra hmany
      rw [not_le] at hmany
      have hpow : 2 ^ 4 ≤ 2 ^ leadingZeros window.significand :=
        Nat.pow_le_pow_right (by decide) hmany
      have hover := Nat.mul_le_mul (h.full hsticky) hpow
      omega
    refine ⟨leadingZeros window.significand, _, hvalue, ⟨?_, hnonneg, ?_, hflag⟩,
      hfew, by rw [hword]; exact hlow⟩
    · rw [hword]
      exact Nat.dvd_mul_left _ _
    · exact mul_lt_of_lt_one_left hpos h.tail_lt
  · have hzero : tail * 2 ^ leadingZeros window.significand = 0 := by
      rw [hflag, not_lt] at hsticky
      exact le_antisymm hsticky hnonneg
    refine ⟨0, _, hvalue, ⟨one_dvd _, hnonneg, ?_, hflag⟩, by omega,
      by rw [hword]; exact hlow⟩
    rw [hzero]
    positivity

theorem Leads.bounds {window : Window} {q rest : ℚ} {place : ℕ}
    (h : window.Leads q place rest) :
    (2 : ℚ) ^ 63 ≤ window.normalized.toNat + rest ∧
      window.normalized.toNat + rest < (2 : ℚ) ^ 64 := by
  have htop : (2 : ℚ) ^ 63 ≤ window.normalized.toNat := by exact_mod_cast h.top
  have hplace := h.place_le
  exact ⟨by linarith [h.below.nonneg],
    h.below.add_lt (by omega) window.normalized.toNat_lt h.below.dvd⟩

/-- Below the normal numbers the word is shifted further, above them the
pattern counts more binades. -/
theorem Leads.units {window : Window} {q rest : ℚ} {place : ℕ}
    (h : window.Leads q place rest) :
    q * 2 ^ 1074 = (window.normalized.toNat + rest) /
        2 ^ (11 + subnormalShift window.leadExponent) *
      2 ^ (window.leadExponent + 1022).toNat := by
  have hscale : (2 : ℚ) ^ (window.leadExponent - 63) * 2 ^ 1074 =
      2 ^ (window.leadExponent + 1022).toNat /
        2 ^ (11 + subnormalShift window.leadExponent) := by
    rw [eq_div_iff (by positivity)]
    simp only [← zpow_natCast]
    rw [← zpow_add₀ (by decide), ← zpow_add₀ (by decide)]
    congr 1
    unfold subnormalShift
    omega
  rw [h.value, mul_assoc, hscale, div_mul_eq_mul_div, mul_div_assoc]

theorem Leads.roundsHalfEven {window : Window} {q rest : ℚ} {place : ℕ}
    (h : window.Leads q place rest) :
    RoundsHalfEven ((window.normalized.toNat + rest) /
        2 ^ (11 + subnormalShift window.leadExponent)) window.kept.toNat := by
  have hplace := h.place_le
  exact h.below.roundsHalfEven (by omega) (by omega)

theorem Leads.nearestMagnitude {window : Window} {q rest : ℚ} {place : ℕ}
    (h : window.Leads q place rest) (hq : 0 ≤ q) :
    Binary64.nearestMagnitude q =
      (window.leadExponent + 1022).toNat * Format.binary64.hiddenBit +
        window.kept.toNat := by
  obtain ⟨hlow, hhigh⟩ := h.bounds
  have hunits := h.units
  have hround := h.roundsHalfEven
  have hpos : (0 : ℚ) < 2 ^ (window.leadExponent + 1022).toNat := by positivity
  have hshift : (0 : ℚ) < 2 ^ (11 + subnormalShift window.leadExponent) := by
    positivity
  symm
  apply Format.IsNearest.eq_nearestTo (by decide)
    (mul_nonneg hq (pow_nonneg (by decide) _))
  rw [hunits]
  apply Format.isNearest_of_excess _ (by decide)
  · rcases Nat.eq_zero_or_pos (window.leadExponent + 1022).toNat with hzero | hnormal
    · exact Or.inl hzero
    · have hnone : subnormalShift window.leadExponent = 0 := by
        unfold subnormalShift
        omega
      refine Or.inr (mul_le_mul_of_nonneg_right ?_ hpos.le)
      rw [hnone, le_div_iff₀ (by positivity), Format.hiddenBit_eq, Nat.cast_pow]
      exact le_trans (by norm_num [Format.binary64]) hlow
  · apply mul_lt_mul_of_pos_right _ hpos
    have hleast : (2 : ℚ) ^ 11 ≤
        2 ^ (11 + subnormalShift window.leadExponent) :=
      pow_le_pow_right₀ (by decide) (by omega)
    rw [div_lt_iff₀ hshift, Format.hiddenBit_eq, Nat.cast_pow]
    exact lt_of_lt_of_le hhigh (le_trans (by norm_num [Format.binary64])
      (mul_le_mul_of_nonneg_left hleast (by positivity)))
  · rw [mul_div_cancel_right₀ _ hpos.ne']
    exact hround

theorem Leads.kept_le {window : Window} {q rest : ℚ} {place : ℕ}
    (h : window.Leads q place rest) : window.kept.toNat ≤ 2 ^ 53 := by
  obtain ⟨_, hhigh⟩ := h.bounds
  have hleast : (2 : ℚ) ^ 11 ≤ 2 ^ (11 + subnormalShift window.leadExponent) :=
    pow_le_pow_right₀ (by decide) (by omega)
  apply h.roundsHalfEven.le_of_le
  rw [div_le_iff₀ (by positivity), Nat.cast_pow]
  exact hhigh.le.trans (le_trans (by norm_num)
    (mul_le_mul_of_nonneg_left hleast (by positivity)))

theorem Leads.le_kept {window : Window} {q rest : ℚ} {place : ℕ}
    (h : window.Leads q place rest)
    (hnormal : subnormalShift window.leadExponent = 0) :
    2 ^ 52 ≤ window.kept.toNat := by
  obtain ⟨hlow, _⟩ := h.bounds
  apply h.roundsHalfEven.ge_of_ge
  rw [hnormal, le_div_iff₀ (by positivity), Nat.cast_pow]
  exact le_trans (by norm_num) hlow

theorem toNat_packNormal {lead : ℤ} {kept : UInt64} (hlead : -1022 ≤ lead)
    (hfinite : lead ≤ 1023) (hlow : 2 ^ 52 ≤ kept.toNat)
    (hhigh : kept.toNat < 2 ^ 53) :
    (packNormal lead kept).toNat =
      (lead + 1022).toNat * Format.binary64.hiddenBit + kept.toNat := by
  have hfraction : (kept &&& Binary64.fractionMask).toNat = kept.toNat - 2 ^ 52 := by
    rw [Binary64.toNat_and_fractionMask]
    omega
  have hfield : (UInt64.ofNat (lead + 1023).toNat <<< 52).toNat =
      (lead + 1023).toNat <<< 52 := by
    rw [UInt64.toNat_shiftLeft, UInt64.toNat_ofNat',
      show (52 : UInt64).toNat % 64 = 52 from rfl, Nat.shiftLeft_eq, Nat.shiftLeft_eq]
    omega
  rw [packNormal, UInt64.toNat_or, hfield, hfraction,
    ← Nat.shiftLeft_add_eq_or_of_lt (by omega), Nat.shiftLeft_eq,
    show Format.binary64.hiddenBit = 2 ^ 52 from rfl]
  omega

theorem Represents.eq_zero {window : Window} {q tail : ℚ}
    (h : window.Represents q tail) (hzero : window.significand = 0) : q = 0 := by
  have hclear : ¬ window.sticky = true := by
    intro hsticky
    have hfull := h.full hsticky
    rw [hzero] at hfull
    exact absurd hfull (by decide)
  rw [h.sticky, not_lt] at hclear
  rw [h.value, hzero, le_antisymm hclear h.tail_nonneg]
  simp

theorem ofFinite?_toNat {word : UInt64}
    (h : word.toNat < Format.binary64.infinity) :
    Binary64.ofFinite? word.toNat = some ⟨word⟩ := by
  rw [Binary64.ofFinite?, if_pos h, Binary64.ofMagnitude, UInt64.ofNat_toNat]
  rfl

/-- The kept bits of a normal number may have been carried to a 54th bit. -/
theorem pack_normal {lead : ℤ} {kept : UInt64} (hlead : -1022 ≤ lead)
    (hfinite : lead ≤ 1023) (hlow : 2 ^ 52 ≤ kept.toNat) (hhigh : kept.toNat ≤ 2 ^ 53) :
    (if kept >>> 53 = 0 then some (packNormal lead kept)
      else if 1023 < lead + 1 then none
      else some (packNormal (lead + 1) (kept >>> 1))).map Binary64.mk =
    Binary64.ofFinite?
      ((lead + 1022).toNat * Format.binary64.hiddenBit + kept.toNat) := by
  have hinfinity : Format.binary64.infinity = 2047 * 2 ^ 52 := rfl
  have hhidden : Format.binary64.hiddenBit = 2 ^ 52 := rfl
  have hcarry : kept >>> 53 = 0 ↔ kept.toNat < 2 ^ 53 := by
    rw [← UInt64.toNat_inj, UInt64.toNat_shiftRight,
      show (53 : UInt64).toNat % 64 = 53 from rfl, Nat.shiftRight_eq_div_pow,
      show (0 : UInt64).toNat = 0 from rfl]
    omega
  split
  · rename_i hinside
    rw [hcarry] at hinside
    have hword := toNat_packNormal hlead hfinite hlow hinside
    rw [hhidden] at hword
    rw [hhidden, ← hword, ofFinite?_toNat (by omega)]
    rfl
  rename_i hover
  rw [hcarry] at hover
  split
  · rename_i hlast
    rw [hhidden, Binary64.ofFinite?, if_neg (by omega)]
    rfl
  · have hhalf : (kept >>> 1).toNat = 2 ^ 52 := by
      rw [UInt64.toNat_shiftRight, show (1 : UInt64).toNat % 64 = 1 from rfl,
        Nat.shiftRight_eq_div_pow]
      omega
    have hword : (packNormal (lead + 1) (kept >>> 1)).toNat =
        (lead + 1 + 1022).toNat * Format.binary64.hiddenBit + (kept >>> 1).toNat :=
      toNat_packNormal (by omega) (by omega) (by omega) (by omega)
    rw [hhidden, hhalf] at hword
    rw [hhidden, show (lead + 1022).toNat * 2 ^ 52 + kept.toNat =
      (packNormal (lead + 1) (kept >>> 1)).toNat by omega,
      ofFinite?_toNat (by omega)]
    rfl

theorem Represents.pack? {window : Window} {q tail : ℚ}
    (h : window.Represents q tail) (hq : 0 ≤ q) :
    window.pack?.map Binary64.mk =
      Binary64.ofFinite? (Binary64.nearestMagnitude q) := by
  have hinfinity : Format.binary64.infinity = 2047 * 2 ^ 52 := rfl
  have hhidden : Format.binary64.hiddenBit = 2 ^ 52 := rfl
  unfold Window.pack?
  simp only
  split
  · rename_i hzero
    rw [h.eq_zero hzero, Binary64.nearestMagnitude, zero_mul,
      ← (Format.isNearest_zero Format.binary64 (by norm_num)).eq_nearestTo
        (by decide) le_rfl]
    rfl
  rename_i hne
  obtain ⟨place, rest, hleads⟩ := h.leads hne
  have hkept := hleads.kept_le
  have hleast := hleads.le_kept
  rw [hleads.nearestMagnitude hq]
  generalize window.kept = kept at hkept hleast ⊢
  generalize window.leadExponent = lead at hleast ⊢
  unfold subnormalShift at hleast ⊢
  split
  · rename_i hlarge
    have hlow := hleast (by omega)
    rw [hhidden, Binary64.ofFinite?, if_neg (by omega)]
    rfl
  rename_i hfinite
  split
  · rename_i hsubnormal
    rw [show (lead + 1022).toNat = 0 by omega, Nat.zero_mul, Nat.zero_add,
      ofFinite?_toNat (by omega)]
    rfl
  · rename_i hnormal
    exact pack_normal (by omega) (by omega) (hleast (by omega)) hkept

end Window

end Hexadecimal

end WasmFloat
