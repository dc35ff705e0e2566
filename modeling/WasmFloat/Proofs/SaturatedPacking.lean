import WasmFloat.Proofs.Packing

namespace WasmFloat

namespace Hexadecimal

def saturatingAdd (a b : Int64) : Int64 := .ofIntClamp (a.toInt + b.toInt)

def saturatingSub (a b : Int64) : Int64 := .ofIntClamp (a.toInt - b.toInt)

theorem toInt_ofIntClamp (n : ℤ) :
    (Int64.ofIntClamp n).toInt = max (-2 ^ 63) (min n (2 ^ 63 - 1)) := by
  have hmin : Int64.minValue.toInt = -2 ^ 63 := rfl
  have hmax : Int64.maxValue.toInt = 2 ^ 63 - 1 := rfl
  rw [Int64.ofIntClamp]
  split
  · split
    · rw [Int64.toInt_ofIntLE]
      omega
    · omega
  · omega

theorem toInt_max (a b : Int64) : (max a b).toInt = max a.toInt b.toInt := by
  rw [show max a b = if a ≤ b then b else a from rfl]
  split
  · rename_i hle
    exact (max_eq_right (Int64.le_iff_toInt_le.mp hle)).symm
  · rename_i hgt
    rw [Int64.le_iff_toInt_le] at hgt
    exact (max_eq_left (Int.le_of_not_le hgt)).symm

namespace Saturated

def leadExponent (significand : UInt64) (exponent : Int64) : Int64 :=
  saturatingAdd (saturatingSub exponent (.ofNat (leadingZeros significand))) 63

def subnormalShift (lead : Int64) : UInt64 := (max (saturatingSub (-1022) lead) 0).toUInt64

def packNormal (lead : Int64) (kept : UInt64) : UInt64 :=
  (lead + 1023).toUInt64 <<< 52 ||| (kept &&& Binary64.fractionMask)

/-- The bits of the nonnegative value nearest to a word, with something below it if
`sticky`, times a power of two. -/
def pack? (significand : UInt64) (exponent : Int64) (sticky : Bool) : Option UInt64 :=
  let normalized := significand <<< UInt64.ofNat (leadingZeros significand)
  let lead := leadExponent significand exponent
  let kept := shiftRightHalfEven normalized (11 + subnormalShift lead).toNat sticky
  if significand = 0 then some 0
  else if 1023 < lead then none
  else if 0 < subnormalShift lead then some kept
  else if kept >>> 53 = 0 then some (packNormal lead kept)
  else if 1023 < lead + 1 then none
  else some (packNormal (lead + 1) (kept >>> 1))

theorem toInt_leadExponent {significand : UInt64} (hne : significand ≠ 0)
    (exponent : Int64) :
    (leadExponent significand exponent).toInt =
      min (max (-2 ^ 63) (exponent.toInt - leadingZeros significand) + 63) (2 ^ 63 - 1) := by
  obtain ⟨-, -, hzeros⟩ := leadingZeros_bounds hne
  have hle := exponent.le_toInt
  have hlt := exponent.toInt_lt
  rw [leadExponent, saturatingAdd, saturatingSub, toInt_ofIntClamp, toInt_ofIntClamp,
    Int64.toInt_ofNat_of_lt (by omega), show (63 : Int64).toInt = 63 from rfl]
  omega

theorem toNat_subnormalShift (lead : Int64) :
    (subnormalShift lead).toNat = min (-1022 - lead.toInt).toNat (2 ^ 63 - 1) := by
  have hle := lead.le_toInt
  have hsub : (saturatingSub (-1022) lead).toInt =
      max (-2 ^ 63) (min (-1022 - lead.toInt) (2 ^ 63 - 1)) := toInt_ofIntClamp _
  have hmax : (max (saturatingSub (-1022) lead) 0).toInt =
      max (saturatingSub (-1022) lead).toInt 0 := toInt_max _ _
  rw [subnormalShift, Int64.toNat_toUInt64_of_le, Int64.toNatClampNeg, hmax, hsub]
  · omega
  · rw [Int64.le_iff_toInt_le, hmax]
    exact le_max_right _ _

theorem subnormalShift_pos_iff (lead : Int64) :
    0 < subnormalShift lead ↔ lead.toInt < -1022 := by
  rw [UInt64.lt_iff_toNat_lt, toNat_subnormalShift, show (0 : UInt64).toNat = 0 from rfl]
  omega

theorem isLarge_iff (lead : Int64) : 1023 < lead ↔ 1023 < lead.toInt := Int64.lt_iff_toInt_lt

theorem toInt_add_of_lt {lead : Int64} {n : ℕ} (hlead : lead.toInt ≤ 1023)
    (hn : n ≤ 1023) : (lead + .ofNat n).toInt = lead.toInt + n := by
  have hle := lead.le_toInt
  rw [Int64.toInt_add, Int64.toInt_ofNat_of_lt (by omega), Int.bmod_eq_of_le (by omega)
    (by omega)]

theorem packNormal_eq {lead : Int64} (hlow : -1022 ≤ lead.toInt)
    (hhigh : lead.toInt ≤ 1023) (kept : UInt64) :
    packNormal lead kept = Window.packNormal lead.toInt kept := by
  have hbiased : (lead + 1023).toInt = lead.toInt + 1023 := toInt_add_of_lt hhigh le_rfl
  have hfield : (lead + 1023).toUInt64 = UInt64.ofNat (lead.toInt + 1023).toNat := by
    rw [← UInt64.toNat_inj, Int64.toNat_toUInt64_of_le, Int64.toNatClampNeg, hbiased,
      UInt64.toNat_ofNat_of_lt' (by simp only [UInt64.size]; omega)]
    rw [Int64.le_iff_toInt_le, hbiased, show (0 : Int64).toInt = 0 from rfl]
    omega
  rw [packNormal, hfield, Window.packNormal]

/-- A machine integer follows an exponent: it is the same number, or both lie on one side
of all finite values. -/
inductive Follows (lead : Int64) (exact : ℤ) : Prop
  | same : lead.toInt = exact → Follows lead exact
  | above : 1023 < lead.toInt → 1023 < exact → Follows lead exact
  | below : lead.toInt < -1075 → exact < -1075 → Follows lead exact

theorem follows_leadExponent {significand : UInt64} (hne : significand ≠ 0)
    (exponent : Int64) (sticky : Bool) :
    Follows (leadExponent significand exponent)
      (Window.mk significand exponent.toInt sticky).leadExponent := by
  obtain ⟨-, -, hzeros⟩ := leadingZeros_bounds hne
  have hlead := toInt_leadExponent hne exponent
  have hle := exponent.le_toInt
  have hlt := exponent.toInt_lt
  rw [Window.leadExponent]
  simp only
  rcases lt_or_ge (exponent.toInt - leadingZeros significand) (-2 ^ 63) with hlow | hlow
  · exact .below (by omega) (by omega)
  · rcases lt_or_ge (exponent.toInt - leadingZeros significand + 63) (2 ^ 63) with hhigh | hhigh
    · exact .same (by omega)
    · exact .above (by omega) (by omega)

section

variable {lead : Int64} {exact : ℤ} (h : Follows lead exact)

include h

theorem Follows.lt_iff : 1023 < lead ↔ 1023 < exact := by
  rw [isLarge_iff]
  cases h <;> omega

theorem Follows.subnormal_iff :
    0 < subnormalShift lead ↔ 0 < Window.subnormalShift exact := by
  rw [subnormalShift_pos_iff, Window.subnormalShift]
  cases h <;> omega

/-- A shift that is cut at the end of its range drops the whole word anyway. -/
theorem Follows.shiftRightHalfEven_eq (word : UInt64) (sticky : Bool) :
    shiftRightHalfEven word (11 + subnormalShift lead).toNat sticky =
      shiftRightHalfEven word (11 + Window.subnormalShift exact) sticky := by
  have hshift := toNat_subnormalShift lead
  have hsum : (11 + subnormalShift lead).toNat = 11 + (subnormalShift lead).toNat := by
    rw [UInt64.toNat_add, show (11 : UInt64).toNat = 11 from rfl]
    omega
  have hwide : ∀ shift : ℕ, 64 < shift → shiftRightHalfEven word shift sticky = 0 := by
    intro shift hlt
    rw [shiftRightHalfEven, if_neg (by omega), if_pos hlt]
  rw [hsum, hshift, Window.subnormalShift]
  by_cases hfits : (-1022 - exact).toNat ≤ 53
  · rw [show min (-1022 - lead.toInt).toNat (2 ^ 63 - 1) = (-1022 - exact).toNat by
      cases h <;> omega]
  · rw [hwide _ (by cases h <;> omega), hwide _ (by omega)]

theorem Follows.eq_of_normal (hfinite : ¬ 1023 < exact)
    (hnormal : ¬ 0 < Window.subnormalShift exact) :
    lead.toInt = exact ∧ -1022 ≤ exact := by
  rw [Window.subnormalShift] at hnormal
  cases h <;> omega

end

theorem pack?_eq (significand : UInt64) (exponent : Int64) (sticky : Bool) :
    pack? significand exponent sticky =
      Window.pack? ⟨significand, exponent.toInt, sticky⟩ := by
  unfold pack? Window.pack?
  simp only
  split
  · rfl
  rename_i hne
  have hfollows := follows_leadExponent hne exponent sticky
  have hkept : shiftRightHalfEven (significand <<< UInt64.ofNat (leadingZeros significand))
      (11 + subnormalShift (leadExponent significand exponent)).toNat sticky =
        (Window.mk significand exponent.toInt sticky).kept :=
    hfollows.shiftRightHalfEven_eq _ sticky
  rw [hkept, if_congr hfollows.lt_iff rfl rfl, if_congr hfollows.subnormal_iff rfl rfl]
  split
  · rfl
  rename_i hfinite
  split
  · rfl
  rename_i hnormal
  obtain ⟨hlead, hlow⟩ := hfollows.eq_of_normal hfinite hnormal
  have hnext : (leadExponent significand exponent + 1).toInt =
      (leadExponent significand exponent).toInt + 1 := toInt_add_of_lt (by omega) (by decide)
  have hcarried : 1023 < leadExponent significand exponent + 1 ↔
      1023 < (leadExponent significand exponent).toInt + 1 := by
    rw [isLarge_iff, hnext]
  rw [packNormal_eq (by omega) (by omega), if_congr hcarried rfl rfl, hlead]
  split
  · rfl
  split
  · rfl
  · rw [packNormal_eq (by omega) (by omega), hnext, hlead]

end Saturated

/-- What a sticky flag may stand for: something below the last bit, or nothing. -/
def IsTail (sticky : Bool) (tail : ℚ) : Prop :=
  if sticky then 0 < tail ∧ tail < 1 else tail = 0

/-- A single correct rounding to the bits of a finite value with its sign clear, or to
none from the midpoint above the largest finite value on. -/
structure RoundsOnce (packed : Option UInt64) (q : ℚ) : Prop where
  overflow : packed = none ↔ (2 : ℚ) ^ 1024 - 2 ^ 970 ≤ q
  nearest : q < (2 : ℚ) ^ 1024 - 2 ^ 970 →
    ∃ x : Binary64, packed = some x.bits ∧ x.isNegative = false ∧ x.IsNearest q

theorem IsTail.represents {window : Window} {tail : ℚ} (h : IsTail window.sticky tail)
    (hfull : window.sticky = true → 2 ^ 60 ≤ window.significand.toNat) :
    window.Represents ((window.significand.toNat + tail) * 2 ^ window.shift) tail := by
  unfold IsTail at h
  cases hsticky : window.sticky with
  | false =>
      rw [hsticky, if_neg Bool.false_ne_true] at h
      exact ⟨rfl, h.ge, h.trans_lt one_pos, by simp [hsticky, h], hfull⟩
  | true =>
      rw [hsticky, if_pos rfl] at h
      exact ⟨rfl, h.1.le, h.2, by simp [hsticky, h.1], hfull⟩

theorem Window.Represents.roundsOnce {window : Window} {q tail : ℚ}
    (h : window.Represents q tail) (hq : 0 ≤ q) : RoundsOnce window.pack? q := by
  have hpack := h.pack? hq
  constructor
  · rw [← Binary64.ofFinite?_nearestMagnitude_eq_none_iff hq, ← hpack,
      Option.map_eq_none_iff]
  · intro hsmall
    obtain ⟨x, hx, hsign, hnearest⟩ := Binary64.exists_isNearest hq hsmall
    obtain ⟨bits, hbits, rfl⟩ := Option.map_eq_some_iff.mp (hpack.trans hx)
    exact ⟨⟨bits⟩, hbits, hsign, hnearest⟩

/-- Packing rounds once and correctly from any machine exponent, whatever tail the sticky
flag stands for. -/
theorem Saturated.packing_roundsOnce (significand : UInt64) (exponent : Int64)
    (sticky : Bool) (hfull : sticky = true → 2 ^ 60 ≤ significand.toNat) :
    pack? significand exponent sticky =
        Window.pack? ⟨significand, exponent.toInt, sticky⟩ ∧
      ∀ tail, IsTail sticky tail → RoundsOnce (pack? significand exponent sticky)
        ((significand.toNat + tail) * 2 ^ exponent.toInt) := by
  refine ⟨pack?_eq significand exponent sticky, fun tail htail => ?_⟩
  have hrepresents : Window.Represents ⟨significand, exponent.toInt, sticky⟩
      ((significand.toNat + tail) * 2 ^ exponent.toInt) tail := IsTail.represents htail hfull
  rw [pack?_eq]
  exact hrepresents.roundsOnce (mul_nonneg
    (add_nonneg (Nat.cast_nonneg _) hrepresents.tail_nonneg) (zpow_pos (by decide) _).le)

/-- The flag decides what would be a tie without it. -/
theorem Saturated.packing_roundsOnce_sticky :
    (true = true → 2 ^ 60 ≤ (0x8000000000000400 : UInt64).toNat) ∧ IsTail true (1 / 2) ∧
      RoundsOnce (some 0x43E0000000000001)
        (((0x8000000000000400 : UInt64).toNat + 1 / 2) * 2 ^ (0 : Int64).toInt) := by
  have hfull : true = true → 2 ^ 60 ≤ (0x8000000000000400 : UInt64).toNat :=
    fun _ => by decide
  have htail : IsTail true (1 / 2) := ⟨by norm_num, by norm_num⟩
  have hpack : pack? 0x8000000000000400 0 true = some 0x43E0000000000001 := by decide
  refine ⟨hfull, htail, ?_⟩
  rw [← hpack]
  exact (packing_roundsOnce 0x8000000000000400 0 true hfull).2 (1 / 2) htail

example : Saturated.pack? 1 .minValue false = some 0 ∧
    Saturated.pack? 0xFFFFFFFFFFFFFFFF .maxValue true = none := by decide

end Hexadecimal

end WasmFloat
