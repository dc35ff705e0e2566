import Mathlib.Data.String.Basic
import WasmFloat.Proofs.DigitLoops
import WasmFloat.Proofs.HexadecimalText

namespace WasmFloat

namespace Hexadecimal

namespace Checked

def appendDecimal (size : Int64) (digit : ℕ) : Except Trap Int64 := do
  let tens ← Machine.mul size 10
  let sum ← Machine.add tens (.ofNat digit)
  return min sum (.ofNat Exponent.bound)

def clamped (exponent : Exponent) : Except Trap Int64 := do
  let size ← exponent.digits.foldlM appendDecimal 0
  if exponent.negative then Machine.neg size else return size

/-- The bits that a shift by 64 places at most keeps, and those that it drops. -/
def cut (word shift : UInt64) : Except Trap (UInt64 × UInt64) :=
  if shift = 64 then return (0, word)
  else do
    let kept ← Machine.shiftRight word shift.toNat
    let bit ← Machine.shiftLeft 1 shift.toNat
    let mask ← Machine.subWord bit 1
    return (kept, word &&& mask)

/-- The upper one of the bits that a shift drops. -/
def half (shift : UInt64) : Except Trap UInt64 := do
  let places ← Machine.subWord shift 1
  Machine.shiftLeft 1 places.toNat

def shiftRightHalfEven (word shift : UInt64) (sticky : Bool) : Except Trap UInt64 :=
  if shift = 0 then return word
  else if 64 < shift then return 0
  else do
    let (kept, rest) ← cut word shift
    let half ← half shift
    let up := decide (half < rest) || (rest == half && (sticky || kept &&& 1 == 1))
    Machine.addWord kept (if up then 1 else 0)

/-- The exponent field of a normal number as a word. -/
def normalField (biased : Int64) : Except Trap UInt64 :=
  if 1 ≤ biased ∧ biased ≤ 2046 then return biased.toUInt64 else .error .field

def packNormal (lead : Int64) (kept : UInt64) : Except Trap UInt64 := do
  let biased ← Machine.add lead 1023
  let field ← normalField biased
  return field <<< 52 ||| (kept &&& Binary64.fractionMask)

def pack (significand : UInt64) (exponent : Int64) (sticky : Bool) :
    Except Trap (Option UInt64) :=
  let lead := Saturated.leadExponent significand exponent
  let below := Saturated.subnormalShift lead
  if significand = 0 then return some 0
  else do
    let normalized ← Machine.shiftLeft significand (leadingZeros significand)
    if 1023 < lead then return none
    else do
      let shift ← Machine.addWord 11 below
      let kept ← shiftRightHalfEven normalized shift sticky
      if 0 < below then return some kept
      else if kept >>> 53 = 0 then some <$> packNormal lead kept
      else do
        let next ← Machine.add lead 1
        if 1023 < next then return none
        else some <$> packNormal next (kept >>> 1)

/-- The value nearest to a numeral. The exponent is computed before the digits are. -/
def nearest (numeral : Numeral) : Except Trap (Option Binary64) := do
  let exponent ← clamped numeral.exponent
  let window ← MachineWindow.ofDigits numeral.integer numeral.fraction
  let packed ← pack window.significand (saturatingAdd window.shift exponent) window.sticky
  return packed.map Binary64.mk

def parts (magnitude : UInt64) : Except Trap (UInt64 × Int64) :=
  let field := magnitude >>> 52
  let fraction := magnitude &&& Binary64.fractionMask
  if field = 0 then do
    let shift ← Machine.count (leadingZeros fraction - 11)
    let exponent ← Machine.sub (-1022) (.ofNat shift)
    let moved ← Machine.moveUp fraction shift
    return (moved &&& Binary64.fractionMask, exponent)
  else do
    let exponent ← Machine.sub (.ofNat field.toNat) 1023
    return (fraction, exponent)

theorem toInt_min (a b : Int64) : (min a b).toInt = min a.toInt b.toInt := by
  rw [show min a b = if a ≤ b then a else b from rfl]
  split
  · rename_i hle
    exact (min_eq_left (Int64.le_iff_toInt_le.mp hle)).symm
  · rename_i hgt
    rw [Int64.le_iff_toInt_le] at hgt
    exact (min_eq_right (Int.le_of_not_le hgt)).symm

theorem appendDecimal_eq_ok {size : Int64} {n digit : ℕ} (hsize : size.toInt = n)
    (hle : n ≤ Exponent.bound) (hdigit : digit < 10) :
    ∃ next, appendDecimal size digit = .ok next ∧
      next.toInt = (min (10 * n + digit) Exponent.bound : ℕ) := by
  have hbound : Exponent.bound = 4294967296 := rfl
  have hvalue : (Int64.ofNat digit).toInt = digit := Int64.toInt_ofNat_of_lt (by omega)
  have hlimit : (Int64.ofNat Exponent.bound).toInt = Exponent.bound := rfl
  obtain ⟨tens, hmul, htens⟩ : ∃ tens, Machine.mul size 10 = .ok tens ∧
      tens.toInt = n * 10 :=
    Machine.exists_int_eq_ok (congrArg (· * 10) hsize) (by omega) (by omega)
  obtain ⟨sum, hadd, hsum⟩ : ∃ sum, Machine.add tens (.ofNat digit) = .ok sum ∧
      sum.toInt = n * 10 + digit :=
    Machine.exists_int_eq_ok (congrArg₂ (· + ·) htens hvalue) (by omega) (by omega)
  refine ⟨min sum (.ofNat Exponent.bound), ?_, ?_⟩
  · rw [appendDecimal, hmul, Trap.ok_bind, hadd]
    rfl
  · rw [toInt_min, hsum, hlimit]
    omega

theorem exists_clamped_eq_ok {exponent : Exponent}
    (hdigits : ∀ digit ∈ exponent.digits, digit < 10) :
    ∃ e, clamped exponent = .ok e ∧ e.toInt = exponent.clamped := by
  have hbound : Exponent.bound = 4294967296 := rfl
  -- What each digit finds is a size that the one before it has cut.
  have hstep : ∀ digit ∈ exponent.digits, ∀ seen (size : Int64) (n : ℕ),
      seen < exponent.digits.length → n ≤ Exponent.bound ∧ size.toInt = n →
        ∃ next, appendDecimal size digit = .ok next ∧
          min (10 * n + digit) Exponent.bound ≤ Exponent.bound ∧
            next.toInt = (min (10 * n + digit) Exponent.bound : ℕ) := by
    intro digit hmem _ size n _ h
    obtain ⟨next, hnext, hvalue⟩ := appendDecimal_eq_ok h.2 h.1 (hdigits digit hmem)
    exact ⟨next, hnext, Nat.min_le_right _ _, hvalue⟩
  have hstart : 0 ≤ Exponent.bound ∧ (0 : Int64).toInt = (0 : ℕ) := ⟨Nat.zero_le _, rfl⟩
  obtain ⟨size, hfold, hle, hsize⟩ :=
    Trap.foldlM_eq_ok exponent.digits hstep (Nat.zero_add _).le hstart
  have hclamped : size.toInt = Exponent.clampedSize exponent.digits := hsize
  rw [clamped, hfold, Trap.ok_bind, Exponent.clamped, Exponent.signed]
  split
  · rw [← hclamped]
    exact Machine.exists_int_eq_ok rfl (by omega) (by omega)
  · exact ⟨size, rfl, hclamped⟩

theorem cut_eq_ok (word : UInt64) {shift : UInt64} (hle : shift.toNat ≤ 64) :
    cut word shift =
      .ok (if shift.toNat = 64 then 0 else word >>> UInt64.ofNat shift.toNat,
        if shift.toNat = 64 then word else dropped word shift.toNat) := by
  have hwhole : shift = 64 ↔ shift.toNat = 64 := UInt64.toNat_inj.symm
  rw [cut, if_congr hwhole rfl rfl]
  split
  · rfl
  rename_i hne
  have hlt : shift.toNat < 64 := Nat.lt_of_le_of_ne hle hne
  have hbit := toNat_one_shiftLeft hlt
  have hpos := Nat.two_pow_pos shift.toNat
  have hone : (1 : UInt64).toNat = 1 := rfl
  have hmask : Machine.subWord (1 <<< UInt64.ofNat shift.toNat) 1 =
      .ok (1 <<< UInt64.ofNat shift.toNat - 1) := by
    rw [Machine.subWord, Machine.word_eq_ok_iff, UInt64.toNat_sub_of_le]
    · omega
    · rw [UInt64.le_iff_toNat_le]
      omega
  rw [Machine.shiftRight, if_pos hlt, Trap.ok_bind, Machine.shiftLeft, if_pos hlt,
    Trap.ok_bind, hmask]
  rfl

theorem half_eq_ok {shift : UInt64} (hpos : 0 < shift.toNat) (hle : shift.toNat ≤ 64) :
    half shift = .ok (1 <<< UInt64.ofNat (shift.toNat - 1)) := by
  have hone : (1 : UInt64).toNat = 1 := rfl
  have hplaces : (shift - 1).toNat = shift.toNat - 1 :=
    UInt64.toNat_sub_of_le _ _ (UInt64.le_iff_toNat_le.mpr hpos)
  have hsub : Machine.subWord shift 1 = .ok (shift - 1) := by
    rw [Machine.subWord, Machine.word_eq_ok_iff, hplaces]
    omega
  rw [half, hsub, Trap.ok_bind, Machine.shiftLeft, if_pos (by omega), hplaces]

theorem addWord_carry {kept : UInt64} (h : kept.toNat + 1 < 2 ^ 64) (up : Bool) :
    Machine.addWord kept (if up then 1 else 0) = .ok (if up then kept + 1 else kept) := by
  have hone : (1 : UInt64).toNat = 1 := rfl
  have hzero : (0 : UInt64).toNat = 0 := rfl
  rw [Machine.addWord, Machine.word_eq_ok_iff]
  cases up with
  | false =>
      simp only [Bool.false_eq_true, if_false]
      omega
  | true =>
      simp only [if_true, UInt64.toNat_add]
      omega

theorem shiftRightHalfEven_eq_ok (word shift : UInt64) (sticky : Bool) :
    shiftRightHalfEven word shift sticky =
      .ok (Hexadecimal.shiftRightHalfEven word shift.toNat sticky) := by
  have hzero : shift = 0 ↔ shift.toNat = 0 := UInt64.toNat_inj.symm
  have hwide : 64 < shift ↔ 64 < shift.toNat := UInt64.lt_iff_toNat_lt
  rw [shiftRightHalfEven, Hexadecimal.shiftRightHalfEven, if_congr hzero rfl rfl,
    if_congr hwide rfl rfl]
  split
  · rfl
  rename_i hpos
  split
  · rfl
  rename_i hle
  rw [cut_eq_ok word (by omega), Trap.ok_bind, half_eq_ok (by omega) (by omega)]
  -- Half of a word and one more is still a word.
  have hsmall : (if shift.toNat = 64 then 0
      else word >>> UInt64.ofNat shift.toNat).toNat + 1 < 2 ^ 64 := by
    split
    · decide
    · have hword := word.toNat_lt
      have htwo : 2 ^ 1 ≤ 2 ^ shift.toNat := Nat.pow_le_pow_right (by decide) (by omega)
      have hhalf := Nat.div_le_div_left (a := word.toNat) htwo (by decide)
      rw [toNat_shiftRight word (by omega)]
      omega
  generalize (if shift.toNat = 64 then 0 else word >>> UInt64.ofNat shift.toNat) = kept
    at hsmall ⊢
  generalize (if shift.toNat = 64 then word else dropped word shift.toNat) = rest
  simp only [Trap.ok_bind, addWord_carry hsmall]
  rfl

theorem packNormal_eq_ok {lead : Int64} (hlow : -1022 ≤ lead.toInt)
    (hhigh : lead.toInt ≤ 1023) (kept : UInt64) :
    packNormal lead kept = .ok (Saturated.packNormal lead kept) := by
  have hvalue : (lead + 1023).toInt = lead.toInt + 1023 :=
    Saturated.toInt_add_of_lt hhigh le_rfl
  have hadd : Machine.add lead 1023 = .ok (lead + 1023) := Machine.int_eq_ok_iff.mpr hvalue
  have hfield : 1 ≤ lead + 1023 ∧ lead + 1023 ≤ 2046 := by
    rw [Int64.le_iff_toInt_le, Int64.le_iff_toInt_le, hvalue,
      show (1 : Int64).toInt = 1 from rfl, show (2046 : Int64).toInt = 2046 from rfl]
    omega
  rw [packNormal, hadd, Trap.ok_bind, normalField, if_pos hfield]
  rfl

theorem pack_eq_ok (significand : UInt64) (exponent : Int64) (sticky : Bool) :
    pack significand exponent sticky = .ok (Saturated.pack? significand exponent sticky) := by
  unfold pack Saturated.pack?
  simp only
  split
  · rfl
  rename_i hne
  obtain ⟨-, -, hzeros⟩ := leadingZeros_bounds hne
  have hshift := Saturated.toNat_subnormalShift (Saturated.leadExponent significand exponent)
  rw [Machine.shiftLeft, if_pos hzeros, Trap.ok_bind]
  generalize Saturated.leadExponent significand exponent = lead at hshift ⊢
  split
  · rfl
  rename_i hfinite
  rw [Saturated.isLarge_iff, not_lt] at hfinite
  have hsum : Machine.addWord 11 (Saturated.subnormalShift lead) =
      .ok (11 + Saturated.subnormalShift lead) := by
    have heleven : (11 : UInt64).toNat = 11 := rfl
    rw [Machine.addWord, Machine.word_eq_ok_iff, UInt64.toNat_add]
    omega
  rw [hsum, Trap.ok_bind, shiftRightHalfEven_eq_ok, Trap.ok_bind]
  generalize Hexadecimal.shiftRightHalfEven _ _ sticky = kept
  split
  · rfl
  rename_i hnormal
  rw [Saturated.subnormalShift_pos_iff, not_lt] at hnormal
  split
  · rw [packNormal_eq_ok hnormal hfinite]
    rfl
  have hvalue : (lead + 1).toInt = lead.toInt + 1 :=
    Saturated.toInt_add_of_lt hfinite (by decide)
  have hadd : Machine.add lead 1 = .ok (lead + 1) := Machine.int_eq_ok_iff.mpr hvalue
  rw [hadd, Trap.ok_bind]
  split
  · rfl
  rename_i hnext
  rw [Saturated.isLarge_iff, not_lt] at hnext
  rw [packNormal_eq_ok (by omega) hnext]
  rfl

theorem nearest_eq_ok {numeral : Numeral}
    (hdigits : ∀ digit ∈ numeral.exponent.digits, digit < 10)
    (hlength : numeral.integer.length + numeral.fraction.length < 2 ^ 60) :
    nearest numeral = .ok (nearest? numeral) := by
  have hbound : Exponent.bound = 4294967296 := rfl
  have hsize := numeral.exponent.natAbs_clamped_le
  obtain ⟨exponent, hexponent, hclamped⟩ := exists_clamped_eq_ok hdigits
  obtain ⟨window, hwindow, htracks⟩ := MachineWindow.exists_ofDigits_eq_ok hlength
  have hshift := htracks.shift_le
  have hsum : (saturatingAdd window.shift exponent).toInt =
      window.shift.toInt + numeral.exponent.clamped := by
    rw [saturatingAdd, toInt_ofIntClamp, hclamped]
    omega
  have hnumeral : Window.ofNumeral numeral = ⟨window.significand,
      (saturatingAdd window.shift exponent).toInt, window.sticky⟩ := by
    rw [Window.ofNumeral, ← htracks.exact, hsum]
    rfl
  rw [nearest, hexponent, Trap.ok_bind, hwindow, Trap.ok_bind, pack_eq_ok, Trap.ok_bind,
    Saturated.pack?_eq, ← hnumeral]
  rfl

theorem parts_eq_ok {magnitude : UInt64} (hne : magnitude ≠ 0) :
    ∃ exponent, parts magnitude = .ok ((Hexadecimal.parts magnitude).1, exponent) ∧
      exponent.toInt = (Hexadecimal.parts magnitude).2 := by
  have hfield := toNat_field magnitude
  have hword := magnitude.toNat_lt
  unfold parts Hexadecimal.parts
  simp only
  split
  · rename_i hzero
    rw [field_eq_zero_iff] at hzero
    rw [and_fractionMask_of_lt hzero]
    obtain ⟨hpos, hle, -, hhigh⟩ := normalizingShift_bounds hne hzero
    have hcount : Machine.count (leadingZeros magnitude - 11) =
        .ok (normalizingShift magnitude) := by
      unfold normalizingShift at hpos ⊢
      rw [Machine.count, if_pos (by omega)]
      congr 1
      omega
    obtain ⟨exponent, hsub, hvalue⟩ : ∃ exponent,
        Machine.sub (-1022) (.ofNat (normalizingShift magnitude)) = .ok exponent ∧
          exponent.toInt = -1022 - normalizingShift magnitude :=
      Machine.exists_int_eq_ok
        (congrArg (-1022 - ·) (Int64.toInt_ofNat_of_lt (by omega))) (by omega) (by omega)
    rw [hcount, Trap.ok_bind, hsub, Trap.ok_bind,
      Machine.moveUp_eq_ok (by omega) (by omega)]
    exact ⟨exponent, rfl, hvalue⟩
  · obtain ⟨exponent, hsub, hvalue⟩ : ∃ exponent,
        Machine.sub (.ofNat (magnitude >>> 52).toNat) 1023 = .ok exponent ∧
          exponent.toInt = (magnitude >>> 52).toNat - 1023 :=
      Machine.exists_int_eq_ok
        (congrArg (· - 1023) (Int64.toInt_ofNat_of_lt (by omega))) (by omega) (by omega)
    rw [hsub]
    exact ⟨exponent, rfl, hvalue⟩

end Checked

/-- A fraction that its normalizing shift brings, with all of its bits, to the place of the
implicit bit. -/
structure ReachesImplicitBit (fraction : UInt64) : Prop where
  shift_pos : 1 ≤ normalizingShift fraction
  shift_le : normalizingShift fraction ≤ 52
  kept : (fraction <<< UInt64.ofNat (normalizingShift fraction)).toNat =
    fraction.toNat * 2 ^ normalizingShift fraction
  low : (fraction <<< UInt64.ofNat (normalizingShift fraction)).toNat < 2 ^ 53
  implicit :
    (fraction <<< UInt64.ofNat (normalizingShift fraction)).toNat.testBit 52 = true

theorem reachesImplicitBit {fraction : UInt64} (hne : fraction ≠ 0)
    (hlt : fraction.toNat < 2 ^ 52) : ReachesImplicitBit fraction := by
  obtain ⟨hpos, hle, hlow, hhigh⟩ := normalizingShift_bounds hne hlt
  have hkept : (fraction <<< UInt64.ofNat (normalizingShift fraction)).toNat =
      fraction.toNat * 2 ^ normalizingShift fraction :=
    toNat_shiftLeft (by omega) (by omega)
  refine ⟨hpos, hle, hkept, hkept ▸ hhigh, ?_⟩
  rw [hkept]
  exact Nat.testBit_of_two_pow_le_and_two_pow_add_one_gt hlow hhigh

theorem nearest?_isFinite {numeral : Numeral}
    (hdigits : ∀ digit ∈ numeral.integer ++ numeral.fraction, digit < 16) {x : Binary64}
    (h : nearest? numeral = some x) : x.isFinite = true ∧ x.isNegative = false := by
  have hsize : (0 : ℚ) ≤ numeral.coefficient 16 * 16 ^ (-(numeral.fraction.length : ℤ)) *
      2 ^ numeral.exponent.clamped :=
    mul_nonneg (mul_nonneg (Nat.cast_nonneg _) (zpow_pos (by decide) _).le)
      (zpow_pos (by decide) _).le
  obtain ⟨hsign, hnearest⟩ := Binary64.isNearest_of_ofFinite? hsize
    ((pack?_scale hdigits numeral.exponent.clamped).symm.trans h)
  exact ⟨hnearest.isFinite, hsign⟩

/-- A text is read without a trap, as an exponent or as a numeral, and what is read is
finite and without a sign. An exponent is computed before the digits are looked at. -/
structure ReadsChecked (text : List Char) : Prop where
  exponent_lt : ∀ exponent front digit rest, Exponent.read? text = some exponent →
    exponent.digits = front ++ digit :: rest →
      10 * Exponent.clampedSize front + digit < 2 ^ 63
  exponent : ∀ exponent, Exponent.read? text = some exponent →
    ∃ e, Checked.clamped exponent = .ok e ∧ e.toInt = exponent.clamped
  numeral : ∀ numeral, Numeral.read? .hexadecimal text = some numeral →
    Checked.nearest numeral = .ok (nearest? numeral)
  finite : ∀ numeral x, Numeral.read? .hexadecimal text = some numeral →
    nearest? numeral = some x → x.isFinite = true ∧ x.isNegative = false

structure WritesChecked (magnitude : UInt64) : Prop where
  parts : magnitude ≠ 0 → ∃ exponent,
    Checked.parts magnitude = .ok ((Hexadecimal.parts magnitude).1, exponent) ∧
      exponent.toInt = (Hexadecimal.parts magnitude).2
  subnormal : magnitude ≠ 0 → magnitude >>> 52 = 0 →
    ReachesImplicitBit (magnitude &&& Binary64.fractionMask)

theorem readsChecked {text : List Char} (hlength : text.length < 2 ^ 60) :
    ReadsChecked text := by
  have hbound : Exponent.bound = 4294967296 := rfl
  constructor
  · intro exponent front digit rest hread hdigits
    rw [Exponent.read?_eq_some_iff] at hread
    have hdigit := hread.digit_lt digit (by simp [hdigits])
    have hle := Exponent.clampedSize_le front
    omega
  · intro exponent hread
    rw [Exponent.read?_eq_some_iff] at hread
    exact Checked.exists_clamped_eq_ok hread.digit_lt
  · intro numeral hread
    rw [Numeral.read?_eq_some_iff NumeralStyle.hexadecimal_unambiguous] at hread
    exact Checked.nearest_eq_ok hread.exponent_digit_lt (hread.length_le.trans_lt hlength)
  · intro numeral x hread hx
    rw [Numeral.read?_eq_some_iff NumeralStyle.hexadecimal_unambiguous] at hread
    exact nearest?_isFinite hread.digits_lt hx

theorem writesChecked (magnitude : UInt64) : WritesChecked magnitude := by
  refine ⟨Checked.parts_eq_ok, fun hne hfield => ?_⟩
  rw [field_eq_zero_iff] at hfield
  rw [and_fractionMask_of_lt hfield]
  exact reachesImplicitBit hne hfield

theorem length_le_utf8ByteSize (text : List Char) :
    text.length ≤ (String.ofList text).utf8ByteSize := by
  rw [String.utf8ByteSize_ofList]
  induction text with
  | nil => exact Nat.zero_le _
  | cons c text ih =>
      rw [List.length_cons, String.utf8Len_cons]
      exact Nat.add_le_add ih c.utf8Size_pos

/-- No machine operation goes wrong, whatever part of a text is read and whatever magnitude
is written. -/
theorem codec_neverTraps {text : String} (hbytes : text.utf8ByteSize < 2 ^ 60) :
    (∀ part, part <:+ text.toList → ReadsChecked part) ∧
      ∀ magnitude, WritesChecked magnitude := by
  have hlength := length_le_utf8ByteSize text.toList
  rw [String.ofList_toList] at hlength
  refine ⟨fun part hpart => readsChecked ?_, writesChecked⟩
  exact (hpart.length_le.trans hlength).trans_lt hbytes

/-- Rounding carries out of the bits that are kept, and then the exponent is the largest. -/
theorem codec_neverTraps_carried :
    "0x1.fffffffffffff8p+1022".utf8ByteSize < 2 ^ 60 ∧
      Checked.nearest ⟨[1], [15, 15, 15, 15, 15, 15, 15, 15, 15, 15, 15, 15, 15, 8],
        ⟨false, [1, 0, 2, 2]⟩⟩ = .ok (some ⟨0x7FE0000000000000⟩) ∧
      ReachesImplicitBit 5 := by
  have hbytes : "0x1.fffffffffffff8p+1022".utf8ByteSize < 2 ^ 60 := by decide
  obtain ⟨hreads, hwrites⟩ := codec_neverTraps hbytes
  have hpart : "1.fffffffffffff8p+1022".toList <:+ "0x1.fffffffffffff8p+1022".toList :=
    ⟨['0', 'x'], rfl⟩
  have hread : Numeral.read? .hexadecimal "1.fffffffffffff8p+1022".toList =
      some ⟨[1], [15, 15, 15, 15, 15, 15, 15, 15, 15, 15, 15, 15, 15, 8],
        ⟨false, [1, 0, 2, 2]⟩⟩ := rfl
  have hnearest : nearest? ⟨[1], [15, 15, 15, 15, 15, 15, 15, 15, 15, 15, 15, 15, 15, 8],
      ⟨false, [1, 0, 2, 2]⟩⟩ = some ⟨0x7FE0000000000000⟩ := by decide +kernel
  refine ⟨hbytes, ?_, (hwrites 5).subnormal (by decide) (by decide)⟩
  rw [← hnearest]
  exact (hreads _ hpart).numeral _ hread

end Hexadecimal

end WasmFloat
