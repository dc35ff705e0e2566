import Mathlib.Algebra.Order.Field.Power
import WasmFloat.Proofs.Fields
import WasmFloat.Proofs.Rounding

namespace WasmFloat

namespace Format

theorem IsNearest.le_midpoint {F : Format} {q : ℚ} {pattern other : ℕ}
    (h : F.IsNearest q pattern) (hlt : pattern < other) :
    2 * q ≤ F.units pattern + F.units other := by
  have hunits : (F.units pattern : ℚ) < F.units other := by
    exact_mod_cast F.units_strictMono hlt
  have hclose := h.closest other
  by_contra hgt
  rw [abs_of_nonpos (by linarith)] at hclose
  rcases le_total (F.units other : ℚ) q with hle | hle
  · rw [abs_of_nonpos (by linarith)] at hclose
    linarith
  · rw [abs_of_nonneg (by linarith)] at hclose
    linarith

theorem IsNearest.midpoint_le {F : Format} {q : ℚ} {pattern other : ℕ}
    (h : F.IsNearest q pattern) (hlt : other < pattern) :
    (F.units pattern + F.units other : ℚ) ≤ 2 * q := by
  have hunits : (F.units other : ℚ) < F.units pattern := by
    exact_mod_cast F.units_strictMono hlt
  have hclose := h.closest other
  by_contra hgt
  rw [abs_of_nonneg (by linarith)] at hclose
  rcases le_total (F.units other : ℚ) q with hle | hle
  · rw [abs_of_nonpos (by linarith)] at hclose
    linarith
  · rw [abs_of_nonneg (by linarith)] at hclose
    linarith

theorem IsNearest.even_of_midpoint {F : Format} {q : ℚ} {pattern other : ℕ}
    (h : F.IsNearest q pattern) (hne : other ≠ pattern)
    (hmid : 2 * q = F.units pattern + F.units other) : pattern % 2 = 0 := by
  apply h.even other hne
  rw [show (F.units other : ℚ) - q = -(F.units pattern - q) by linarith, abs_neg]

/-- Of two patterns both nearest to `q`, the lower and its successor would be
even as well. -/
theorem IsNearest.not_lt {F : Format} {q : ℚ} {lower upper : ℕ}
    (hlower : F.IsNearest q lower) (hupper : F.IsNearest q upper) :
    ¬ lower < upper := by
  intro hlt
  have hmid := le_antisymm (hlower.le_midpoint hlt)
    (by rw [add_comm]; exact hupper.midpoint_le hlt)
  have hlowerEven := hlower.even_of_midpoint hlt.ne' hmid
  have hupperEven := hupper.even_of_midpoint hlt.ne (by rw [hmid, add_comm])
  have hstep : lower + 1 < upper := by omega
  have hbetween : (F.units (lower + 1) : ℚ) < F.units upper := by
    exact_mod_cast F.units_strictMono hstep
  have hnext := hlower.le_midpoint (Nat.lt_succ_self lower)
  linarith

theorem IsNearest.unique {F : Format} {q : ℚ} {pattern other : ℕ}
    (h : F.IsNearest q pattern) (hother : F.IsNearest q other) :
    pattern = other :=
  Nat.le_antisymm (Nat.le_of_not_lt (hother.not_lt h))
    (Nat.le_of_not_lt (h.not_lt hother))

/-- If the order were reversed, both numbers would be the midpoint of the two
patterns, and only one of these is nearest to it. -/
theorem IsNearest.mono {F : Format} {p q : ℚ} {lower upper : ℕ}
    (hlower : F.IsNearest p lower) (hupper : F.IsNearest q upper) (hle : p ≤ q) :
    lower ≤ upper := by
  by_contra hgt
  rw [Nat.not_le] at hgt
  have hp := hlower.midpoint_le hgt
  have hq := hupper.le_midpoint hgt
  have heq : p = q := by linarith
  subst heq
  exact hgt.ne (hupper.unique hlower)

theorem isNearest_units (F : Format) (pattern : ℕ) :
    F.IsNearest (F.units pattern) pattern := by
  apply isNearest_of_midpoints
  · intro other hlt
    have hunits : (F.units pattern : ℚ) < F.units other := by
      exact_mod_cast F.units_strictMono hlt
    exact ⟨by linarith, fun htie => by linarith⟩
  · intro other hlt
    have hunits : (F.units other : ℚ) < F.units pattern := by
      exact_mod_cast F.units_strictMono hlt
    exact ⟨by linarith, fun htie => by linarith⟩

@[simp] theorem units_zero (F : Format) : F.units 0 = 0 :=
  units_of_lt F.hiddenBit_pos

theorem isNearest_zero (F : Format) {q : ℚ} (hq : 2 * q ≤ 1) :
    F.IsNearest q 0 := by
  apply isNearest_of_midpoints
  · intro other hlt
    have hunits : F.units 0 < F.units other := F.units_strictMono hlt
    rw [units_zero] at hunits
    have hone : (1 : ℚ) ≤ F.units other := by exact_mod_cast hunits
    rw [units_zero, Nat.cast_zero, zero_add]
    exact ⟨by linarith, fun _ => rfl⟩
  · intro other hlt
    exact absurd hlt (Nat.not_lt_zero other)

/-- The bits that are kept reach into the binade of the hidden bit, unless none
are dropped, and stay in it. -/
theorem excessBits_bounds (F : Format) (units : ℕ) :
    (F.excessBits units = 0 ∨ F.hiddenBit * 2 ^ F.excessBits units ≤ units) ∧
      units < 2 * F.hiddenBit * 2 ^ F.excessBits units := by
  have hexcess : F.excessBits units = units.log2 - F.fractionBits := rfl
  generalize F.excessBits units = excess at hexcess
  constructor
  · by_cases hzero : excess = 0
    · exact Or.inl hzero
    · right
      have hne : units ≠ 0 := by
        intro hnone
        rw [hnone, Nat.log2_zero] at hexcess
        omega
      have hlog := Nat.log2_self_le hne
      rw [show units.log2 = F.fractionBits + excess by omega, Nat.pow_add,
        ← hiddenBit_eq] at hlog
      exact hlog
  · calc
      units < 2 ^ (units.log2 + 1) := Nat.lt_log2_self
      _ ≤ 2 ^ (F.fractionBits + excess + 1) :=
        Nat.pow_le_pow_right (by decide) (by omega)
      _ = 2 * F.hiddenBit * 2 ^ excess := by
        rw [hiddenBit_eq]
        ring

theorem isNearest_nearest (F : Format) (hbits : 0 < F.fractionBits)
    (numerator : ℕ) {denominator : ℕ} (h : 0 < denominator) :
    F.IsNearest ((numerator : ℚ) / denominator)
      (F.nearest numerator denominator) := by
  have hpos : (0 : ℚ) < denominator := by exact_mod_cast h
  obtain ⟨hlow, hhigh⟩ := F.excessBits_bounds (numerator / denominator)
  unfold nearest
  simp only
  generalize F.excessBits (numerator / denominator) = excess at hlow hhigh
  apply F.isNearest_of_excess hbits
  · rw [le_div_iff₀ hpos]
    rw [Nat.le_div_iff_mul_le h] at hlow
    exact_mod_cast hlow
  · rw [div_lt_iff₀ hpos]
    rw [Nat.div_lt_iff_lt_mul h] at hhigh
    exact_mod_cast hhigh
  · have hround := roundsHalfEven_roundHalfEven numerator
      (Nat.mul_pos h (Nat.two_pow_pos excess))
    rw [Nat.shiftLeft_eq, div_div]
    push_cast at hround
    exact hround

def nearestTo (F : Format) (q : ℚ) : ℕ := F.nearest q.num.toNat q.den

theorem isNearest_nearestTo (F : Format) (hbits : 0 < F.fractionBits) {q : ℚ}
    (hq : 0 ≤ q) : F.IsNearest q (F.nearestTo q) := by
  have hnearest := F.isNearest_nearest hbits q.num.toNat q.den_pos
  have hnum : ((q.num.toNat : ℕ) : ℚ) = q.num := by
    exact_mod_cast Int.toNat_of_nonneg (Rat.num_nonneg.mpr hq)
  rw [hnum, Rat.num_div_den] at hnearest
  exact hnearest

theorem IsNearest.eq_nearestTo {F : Format} {q : ℚ} {pattern : ℕ}
    (hbits : 0 < F.fractionBits) (hq : 0 ≤ q) (h : F.IsNearest q pattern) :
    pattern = F.nearestTo q :=
  h.unique (F.isNearest_nearestTo hbits hq)

theorem units_infinity :
    binary64.units binary64.infinity = 2 ^ 53 * 2 ^ 2045 := by
  rw [show binary64.infinity = 2045 * binary64.hiddenBit + 2 ^ 53 by decide]
  exact binary64.units_add 2045 (Or.inr (by decide)) (by decide)

/-- The largest finite value is `2 ^ 53 - 1` times `2 ^ 2045` units, and
infinity's pattern stands for `2 ^ 53` times as many. -/
theorem midpoint_below_infinity :
    (binary64.units (binary64.infinity - 1) : ℚ) + binary64.units binary64.infinity =
      2 * ((2 : ℚ) ^ 2098 - 2 ^ 2044) := by
  have hlast : binary64.units (binary64.infinity - 1) =
      0x1FFFFFFFFFFFFF * 2 ^ 2045 := by
    rw [show binary64.infinity - 1 =
      2045 * binary64.hiddenBit + 0x1FFFFFFFFFFFFF by decide]
    exact binary64.units_add 2045 (Or.inr (by decide)) (by decide)
  rw [hlast, units_infinity]
  simp only [Nat.cast_mul, Nat.cast_pow, Nat.cast_ofNat]
  rw [show (2 : ℚ) ^ 2045 = 2 * 2 ^ 2044 by rw [← pow_succ'],
    show (2 : ℚ) ^ 2098 = 2 ^ 54 * 2 ^ 2044 by rw [← pow_add]]
  generalize (2 : ℚ) ^ 2044 = scale
  ring

theorem infinity_le_iff {q : ℚ} {pattern : ℕ}
    (h : binary64.IsNearest q pattern) :
    binary64.infinity ≤ pattern ↔ (2 : ℚ) ^ 2098 - 2 ^ 2044 ≤ q := by
  have hmid := midpoint_below_infinity
  generalize (2 : ℚ) ^ 2098 - 2 ^ 2044 = bound at hmid ⊢
  have hpred : binary64.infinity - 1 < binary64.infinity := by decide
  constructor
  · intro hle
    have hmono : (binary64.units binary64.infinity : ℚ) ≤ binary64.units pattern := by
      exact_mod_cast binary64.units_strictMono.monotone hle
    have hbelow := h.midpoint_le (Nat.lt_of_lt_of_le hpred hle)
    linarith
  · intro hq
    by_contra hlt
    rw [Nat.not_le] at hlt
    have habove := h.le_midpoint hlt
    rcases Nat.lt_or_ge pattern (binary64.infinity - 1) with hless | hlargest
    · have hmono : (binary64.units pattern : ℚ) <
          binary64.units (binary64.infinity - 1) := by
        exact_mod_cast binary64.units_strictMono hless
      linarith
    · have heq : pattern = binary64.infinity - 1 := by omega
      have htie : 2 * q = binary64.units pattern + binary64.units binary64.infinity := by
        rw [heq] at habove ⊢
        linarith
      have heven := h.even_of_midpoint hlt.ne' htie
      rw [heq] at heven
      exact absurd heven (by decide)

end Format

namespace Binary64

def absValue (x : Binary64) : ℚ := x.units / 2 ^ 1074

def value (x : Binary64) : ℚ := x.signedUnits / 2 ^ 1074

/-- No finite value is closer in size to `q`, and of two sizes that are equally
close it has the one with bit zero clear. -/
structure IsNearest (x : Binary64) (q : ℚ) : Prop where
  isFinite : x.isFinite = true
  closest : ∀ y : Binary64, y.isFinite = true →
    |x.absValue - q| ≤ |y.absValue - q|
  even : ∀ y : Binary64, y.isFinite = true → y.absValue ≠ x.absValue →
    |x.absValue - q| = |y.absValue - q| → x.bits &&& 1 = 0

theorem units_eq_zero_iff (x : Binary64) : x.units = 0 ↔ x.isZero = true := by
  rw [isZero_iff, units, ← Format.binary64.units_zero]
  exact Format.binary64.units_strictMono.injective.eq_iff

theorem absValue_neg (x : Binary64) : x.neg.absValue = x.absValue := by
  rw [absValue, absValue, units, units, magnitude_neg]

theorem even_bits_iff (x : Binary64) : x.bits &&& 1 = 0 ↔ x.magnitude % 2 = 0 := by
  rw [← UInt64.toNat_inj, UInt64.toNat_and, magnitude_eq,
    show (1 : UInt64).toNat = 2 ^ 1 - 1 from rfl, Nat.and_two_pow_sub_one_eq_mod,
    show (0 : UInt64).toNat = 0 from rfl]
  omega

theorem IsNearest.neg {x : Binary64} {q : ℚ} (h : x.IsNearest q) :
    x.neg.IsNearest q := by
  refine ⟨by rw [isFinite_neg, h.isFinite], fun y hy => ?_, fun y hy hne heq => ?_⟩
  · rw [absValue_neg]
    exact h.closest y hy
  · rw [absValue_neg] at hne heq
    rw [even_bits_iff, magnitude_neg, ← even_bits_iff]
    exact h.even y hy hne heq

theorem abs_absValue_sub (x : Binary64) (q : ℚ) :
    |x.absValue - q| = |(x.units : ℚ) - q * 2 ^ 1074| / 2 ^ 1074 := by
  have hpos : (0 : ℚ) < 2 ^ 1074 := pow_pos (by decide) _
  rw [absValue, eq_div_iff hpos.ne']
  generalize (2 : ℚ) ^ 1074 = scale at hpos ⊢
  rw [← abs_of_pos hpos, ← abs_mul, abs_of_pos hpos, sub_mul,
    div_mul_cancel₀ _ hpos.ne']

theorem isNearest_of_magnitude {x : Binary64} {q : ℚ} (hx : x.isFinite = true)
    (h : Format.binary64.IsNearest (q * 2 ^ 1074) x.magnitude) :
    x.IsNearest q := by
  have hpos : (0 : ℚ) < 2 ^ 1074 := pow_pos (by decide) _
  refine ⟨hx, fun y _ => ?_, fun y _ hne heq => ?_⟩
  · rw [abs_absValue_sub, abs_absValue_sub]
    exact div_le_div_of_nonneg_right (h.closest y.magnitude) hpos.le
  · rw [abs_absValue_sub, abs_absValue_sub, div_left_inj' hpos.ne'] at heq
    rw [even_bits_iff]
    apply h.even y.magnitude _ heq
    intro hsame
    apply hne
    rw [absValue, absValue, units, units, hsame]

def nearestMagnitude (q : ℚ) : ℕ := Format.binary64.nearestTo (q * 2 ^ 1074)

theorem isNearest_nearestMagnitude {q : ℚ} (hq : 0 ≤ q) :
    Format.binary64.IsNearest (q * 2 ^ 1074) (nearestMagnitude q) :=
  Format.binary64.isNearest_nearestTo (by decide)
    (mul_nonneg hq (pow_nonneg (by decide) _))

theorem nearestMagnitude_mono {p q : ℚ} (hp : 0 ≤ p) (hle : p ≤ q) :
    nearestMagnitude p ≤ nearestMagnitude q := by
  refine (isNearest_nearestMagnitude hp).mono
    (isNearest_nearestMagnitude (hp.trans hle)) ?_
  exact mul_le_mul_of_nonneg_right hle (pow_nonneg (by decide) _)

theorem nearestMagnitude_between {lower middle upper : ℚ} {pattern : ℕ}
    (hnonneg : 0 ≤ lower) (hlower : nearestMagnitude lower = pattern)
    (hupper : nearestMagnitude upper = pattern) (hle : lower ≤ middle)
    (hge : middle ≤ upper) : nearestMagnitude middle = pattern := by
  apply le_antisymm
  · rw [← hupper]
    exact nearestMagnitude_mono (hnonneg.trans hle) hge
  · rw [← hlower]
    exact nearestMagnitude_mono hnonneg hle

theorem nearestMagnitude_units (pattern : ℕ) :
    nearestMagnitude (Format.binary64.units pattern / 2 ^ 1074) = pattern := by
  have hpos : (0 : ℚ) < 2 ^ 1074 := pow_pos (by decide) _
  rw [nearestMagnitude, div_mul_cancel₀ _ hpos.ne']
  exact ((Format.isNearest_units _ pattern).eq_nearestTo (by decide)
    (Nat.cast_nonneg _)).symm

/-- The positive value of a magnitude pattern, if it is finite. -/
def ofFinite? (pattern : ℕ) : Option Binary64 :=
  if pattern < Format.binary64.infinity then some (ofMagnitude false pattern)
  else none

theorem infinity_le_nearestMagnitude_iff {q : ℚ} (hq : 0 ≤ q) :
    Format.binary64.infinity ≤ nearestMagnitude q ↔
      (2 : ℚ) ^ 1024 - 2 ^ 970 ≤ q := by
  rw [Format.infinity_le_iff (isNearest_nearestMagnitude hq),
    show (2 : ℚ) ^ 2098 = 2 ^ 1024 * 2 ^ 1074 by rw [← pow_add],
    show (2 : ℚ) ^ 2044 = 2 ^ 970 * 2 ^ 1074 by rw [← pow_add], ← sub_mul]
  exact mul_le_mul_iff_left₀ (pow_pos (by decide) _)

theorem ofFinite?_nearestMagnitude_eq_none_iff {q : ℚ} (hq : 0 ≤ q) :
    ofFinite? (nearestMagnitude q) = none ↔ (2 : ℚ) ^ 1024 - 2 ^ 970 ≤ q := by
  rw [← infinity_le_nearestMagnitude_iff hq, ofFinite?]
  split
  · rename_i hlt
    exact ⟨fun h => (nomatch h), fun h => absurd hlt (Nat.not_lt.mpr h)⟩
  · rename_i hge
    exact ⟨fun _ => Nat.le_of_not_lt hge, fun _ => rfl⟩

theorem ofFinite?_eq_some_iff {pattern : ℕ} {x : Binary64} :
    ofFinite? pattern = some x ↔
      pattern < Format.binary64.infinity ∧ x = ofMagnitude false pattern := by
  rw [ofFinite?]
  split
  · rename_i hlt
    rw [Option.some.injEq]
    exact ⟨fun h => ⟨hlt, h.symm⟩, fun h => h.2.symm⟩
  · rename_i hge
    exact ⟨fun h => (nomatch h), fun h => absurd h.1 hge⟩

theorem ofFinite?_magnitude {x : Binary64} (h : x.isFinite = true) :
    ofFinite? x.magnitude = some x.abs := by
  rw [ofFinite?_eq_some_iff, ← isFinite_iff]
  exact ⟨h, (ofMagnitude_false x).symm⟩

theorem infinity_lt : Format.binary64.infinity < 2 ^ 63 := by decide

theorem ofFinite?_eq_iff {pattern : ℕ} (h : pattern < Format.binary64.infinity)
    {other : ℕ} : ofFinite? other = ofFinite? pattern ↔ other = pattern := by
  refine ⟨fun heq => ?_, fun heq => by rw [heq]⟩
  rw [ofFinite?, ofFinite?, if_pos h] at heq
  split at heq
  · rename_i hother
    have hmagnitude := congrArg magnitude (Option.some.inj heq)
    rwa [magnitude_ofMagnitude _ (hother.trans infinity_lt),
      magnitude_ofMagnitude _ (h.trans infinity_lt)] at hmagnitude
  · exact nomatch heq

theorem isNearest_of_ofFinite? {q : ℚ} (hq : 0 ≤ q) {x : Binary64}
    (h : ofFinite? (nearestMagnitude q) = some x) :
    x.isNegative = false ∧ x.IsNearest q := by
  rw [ofFinite?_eq_some_iff] at h
  obtain ⟨hlt, rfl⟩ := h
  have hword : nearestMagnitude q < 2 ^ 63 := Nat.lt_trans hlt infinity_lt
  refine ⟨isNegative_ofMagnitude false hword, isNearest_of_magnitude ?_ ?_⟩
  · rw [isFinite_iff, magnitude_ofMagnitude false hword]
    exact hlt
  · rw [magnitude_ofMagnitude false hword]
    exact isNearest_nearestMagnitude hq

theorem exists_isNearest {q : ℚ} (hq : 0 ≤ q) (hsmall : q < (2 : ℚ) ^ 1024 - 2 ^ 970) :
    ∃ x, ofFinite? (nearestMagnitude q) = some x ∧ x.isNegative = false ∧
      x.IsNearest q := by
  rw [← not_le, ← ofFinite?_nearestMagnitude_eq_none_iff hq] at hsmall
  obtain ⟨x, hx⟩ := Option.ne_none_iff_exists'.mp hsmall
  exact ⟨x, hx, isNearest_of_ofFinite? hq hx⟩

theorem ofFinite?_of_large {q : ℚ} (h : (2 : ℚ) ^ (1024 : ℤ) ≤ q) :
    ofFinite? (nearestMagnitude q) = none := by
  have hlarge : (2 : ℚ) ^ 1024 ≤ q := by
    rw [← zpow_natCast]
    exact h
  have hpos : (0 : ℚ) < 2 ^ 970 := pow_pos (by decide) _
  have hstart : (0 : ℚ) < 2 ^ 1024 := pow_pos (by decide) _
  generalize hbound : (2 : ℚ) ^ 1024 - 2 ^ 970 = bound
  have hle : bound ≤ q := by
    rw [← hbound]
    exact (sub_le_self _ hpos.le).trans hlarge
  rw [ofFinite?_nearestMagnitude_eq_none_iff (hstart.le.trans hlarge), hbound]
  exact hle

theorem ofFinite?_of_small {q : ℚ} (hq : 0 ≤ q)
    (h : q ≤ (2 : ℚ) ^ (-1075 : ℤ)) :
    ofFinite? (nearestMagnitude q) = some zero := by
  have hscale : (0 : ℚ) < 2 ^ 1074 := pow_pos (by decide) _
  have htwice : 2 * (q * 2 ^ 1074) ≤ 1 := by
    have hle := mul_le_mul_of_nonneg_right h hscale.le
    rw [← zpow_natCast, ← zpow_add₀ (by decide)] at hle
    rw [← zpow_natCast]
    exact (mul_le_mul_of_nonneg_left hle (by decide)).trans (by norm_num)
  rw [nearestMagnitude, ← (Format.isNearest_zero _ htwice).eq_nearestTo (by decide)
    (mul_nonneg hq hscale.le)]
  rfl

theorem ofFinite?_eq_zero_iff {q : ℚ} (hq : 0 ≤ q) :
    ofFinite? (nearestMagnitude q) = some zero ↔ q ≤ (2 : ℚ) ^ (-1075 : ℤ) := by
  refine ⟨fun h => ?_, ofFinite?_of_small hq⟩
  obtain ⟨hlt, hzero⟩ := ofFinite?_eq_some_iff.mp h
  have hmagnitude := magnitude_ofMagnitude false (Nat.lt_trans hlt infinity_lt)
  rw [← hzero, show zero.magnitude = 0 from rfl] at hmagnitude
  have hnearest := isNearest_nearestMagnitude hq
  rw [← hmagnitude] at hnearest
  have hmid := hnearest.le_midpoint Nat.one_pos
  rw [Format.units_zero, Format.units_of_lt (show 1 < Format.binary64.hiddenBit by decide),
    Nat.cast_zero, Nat.cast_one, zero_add] at hmid
  have hpos : (0 : ℚ) < 2 ^ 1074 := pow_pos (by decide) _
  rw [show (-1075 : ℤ) = -((1074 + 1 : ℕ) : ℤ) from rfl, zpow_neg, zpow_natCast, pow_succ,
    ← one_div]
  generalize (2 : ℚ) ^ 1074 = scale at hmid hpos ⊢
  rw [le_div_iff₀ (by positivity)]
  linarith

end Binary64

end WasmFloat
