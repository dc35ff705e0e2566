import Mathlib.Tactic.Ring
import WasmFloat.Binary64.Basic

namespace WasmFloat.Binary64

/-- Masking with a block of ones keeps that block of bits. -/
theorem and_shifted_ones (n width shift : Nat) :
    n &&& (2 ^ width - 1) * 2 ^ shift =
      n / 2 ^ shift % 2 ^ width * 2 ^ shift := by
  apply Nat.eq_of_testBit_eq
  intro i
  rw [Nat.testBit_and, ← Nat.shiftLeft_eq, ← Nat.shiftLeft_eq,
    Nat.testBit_shiftLeft, Nat.testBit_shiftLeft, Nat.testBit_two_pow_sub_one,
    Nat.testBit_mod_two_pow, Nat.testBit_div_two_pow]
  by_cases h : shift ≤ i
  · simp only [h, decide_true, Bool.true_and]
    rw [Nat.sub_add_cancel h, Bool.and_comm]
  · simp [h]

theorem and_shifted_ones_ne_zero_iff (n width shift : Nat) :
    n &&& (2 ^ width - 1) * 2 ^ shift ≠ 0 ↔
      ∃ i, shift ≤ i ∧ i < shift + width ∧ n.testBit i = true := by
  constructor
  · intro hne
    obtain ⟨i, hi⟩ := Nat.exists_testBit_of_ne_zero hne
    rw [Nat.testBit_and, ← Nat.shiftLeft_eq, Nat.testBit_shiftLeft,
      Nat.testBit_two_pow_sub_one] at hi
    simp only [Bool.and_eq_true, decide_eq_true_eq] at hi
    exact ⟨i, hi.2.1, by omega, hi.1⟩
  · rintro ⟨i, hlow, hhigh, hbit⟩ hzero
    have hwidth : i - shift < width := by omega
    have hi := congrArg (Nat.testBit · i) hzero
    simp [← Nat.shiftLeft_eq, hbit, hlow, hwidth] at hi

theorem toNat_and_fractionMask (word : UInt64) :
    (word &&& fractionMask).toNat = word.toNat % 2 ^ 52 := by
  rw [UInt64.toNat_and]
  exact Nat.and_two_pow_sub_one_eq_mod _ 52

theorem toNat_abs_bits (x : Binary64) :
    x.abs.bits.toNat = x.bits.toNat % 2 ^ 63 := by
  unfold abs
  rw [UInt64.toNat_and]
  exact Nat.and_two_pow_sub_one_eq_mod _ 63

theorem magnitude_eq (x : Binary64) : x.magnitude = x.bits.toNat % 2 ^ 63 :=
  toNat_abs_bits x

theorem magnitude_lt (x : Binary64) : x.magnitude < 2 ^ 63 := by
  rw [magnitude_eq]
  exact Nat.mod_lt _ (by decide)

theorem isNegative_iff (x : Binary64) :
    x.isNegative = true ↔ 2 ^ 63 ≤ x.bits.toNat := by
  have hbits := x.bits.toNat_lt
  have hmask := and_shifted_ones x.bits.toNat 1 63
  unfold isNegative
  rw [bne_iff_ne, ne_eq, ← UInt64.toNat_inj, UInt64.toNat_and,
    show signMask.toNat = (2 ^ 1 - 1) * 2 ^ 63 from rfl, hmask,
    show (0 : UInt64).toNat = 0 from rfl]
  omega

theorem toNat_bits (x : Binary64) :
    x.bits.toNat = (if x.isNegative then 2 ^ 63 else 0) + x.magnitude := by
  have hbits := x.bits.toNat_lt
  rw [magnitude_eq]
  by_cases hsign : x.isNegative = true
  · rw [if_pos hsign]
    rw [isNegative_iff] at hsign
    omega
  · rw [if_neg hsign]
    rw [isNegative_iff] at hsign
    omega

theorem ext_fields {x y : Binary64} (hsign : x.isNegative = y.isNegative)
    (hmagnitude : x.magnitude = y.magnitude) : x = y := by
  have hbits : x.bits.toNat = y.bits.toNat := by
    rw [toNat_bits x, toNat_bits y, hsign, hmagnitude]
  cases x
  cases y
  exact congrArg mk (UInt64.toNat_inj.mp hbits)

theorem isZero_iff (x : Binary64) : x.isZero = true ↔ x.magnitude = 0 := by
  unfold isZero magnitude
  rw [beq_iff_eq, ← UInt64.toNat_inj]
  rfl

theorem isInfinite_iff (x : Binary64) :
    x.isInfinite = true ↔ x.magnitude = Format.binary64.infinity := by
  unfold isInfinite magnitude
  rw [beq_iff_eq, ← UInt64.toNat_inj]
  rfl

theorem isFinite_iff (x : Binary64) :
    x.isFinite = true ↔ x.magnitude < Format.binary64.infinity := by
  have hbits := x.bits.toNat_lt
  have hmask := and_shifted_ones x.bits.toNat 11 52
  unfold isFinite
  rw [bne_iff_ne, ne_eq, ← UInt64.toNat_inj, UInt64.toNat_and,
    show exponentMask.toNat = (2 ^ 11 - 1) * 2 ^ 52 from rfl, hmask,
    magnitude_eq,
    show Format.binary64.infinity = (2 ^ 11 - 1) * 2 ^ 52 from rfl]
  omega

theorem isNan_iff (x : Binary64) :
    x.isNan = true ↔ Format.binary64.infinity < x.magnitude := by
  have hbits := x.bits.toNat_lt
  have hexponent := and_shifted_ones x.bits.toNat 11 52
  have hfraction := toNat_and_fractionMask x.bits
  unfold isNan
  rw [Bool.and_eq_true, beq_iff_eq, bne_iff_ne, ne_eq, ← UInt64.toNat_inj,
    ← UInt64.toNat_inj, UInt64.toNat_and, hfraction,
    show exponentMask.toNat = (2 ^ 11 - 1) * 2 ^ 52 from rfl, hexponent,
    show (0 : UInt64).toNat = 0 from rfl, magnitude_eq,
    show Format.binary64.infinity = (2 ^ 11 - 1) * 2 ^ 52 from rfl]
  omega

/-- A NaN with the highest fraction bit set. -/
def isQuietNan (x : Binary64) : Bool :=
  x.isNan && x.bits &&& quietBit != 0

/-- Any value but a signalling NaN. -/
def IsQuiet (x : Binary64) : Prop := x.isNan = true → x.isQuietNan = true

theorem isNan_of_isQuietNan {x : Binary64} (h : x.isQuietNan = true) :
    x.isNan = true := by
  rw [isQuietNan, Bool.and_eq_true] at h
  exact h.1

theorem isQuiet_of_not_isNan {x : Binary64} (h : x.isNan = false) : x.IsQuiet :=
  fun hnan => nomatch h.symm.trans hnan

theorem isFinite_of_isZero {x : Binary64} (h : x.isZero = true) : x.isFinite = true := by
  rw [isZero_iff] at h
  rw [isFinite_iff, h]
  decide

theorem isInfinite_of_isFinite {x : Binary64} (h : x.isFinite = true) :
    x.isInfinite = false ∧ x.isNan = false := by
  rw [isFinite_iff] at h
  rw [← Bool.not_eq_true, ← Bool.not_eq_true, isInfinite_iff, isNan_iff]
  omega

theorem isNan_of_isInfinite {x : Binary64} (h : x.isInfinite = true) :
    x.isNan = false := by
  rw [isInfinite_iff] at h
  rw [← Bool.not_eq_true, isNan_iff, h]
  exact lt_irrefl _

theorem isFinite_of_not {x : Binary64} (hnan : ¬ x.isNan = true)
    (hinfinite : ¬ x.isInfinite = true) : x.isFinite = true := by
  rw [isNan_iff] at hnan
  rw [isInfinite_iff] at hinfinite
  rw [isFinite_iff]
  omega

theorem isFinite_eq_false {x : Binary64} (h : x.isInfinite = true ∨ x.isNan = true) :
    x.isFinite = false := by
  rw [← Bool.not_eq_true]
  intro hfinite
  obtain ⟨hinfinite, hnan⟩ := isInfinite_of_isFinite hfinite
  simp [hinfinite, hnan] at h

theorem toNat_neg_bits (x : Binary64) :
    x.neg.bits.toNat = (if x.isNegative then 0 else 2 ^ 63) + x.magnitude := by
  have hbits := x.bits.toNat_lt
  have hsign := isNegative_iff x
  have hlow : x.neg.bits.toNat % 2 ^ 63 = x.bits.toNat % 2 ^ 63 := by
    unfold neg
    rw [UInt64.toNat_xor, Nat.xor_mod_two_pow]
    exact Nat.xor_zero _
  have hhigh : x.neg.bits.toNat / 2 ^ 63 = x.bits.toNat / 2 ^ 63 ^^^ 1 := by
    unfold neg
    rw [UInt64.toNat_xor, Nat.xor_div_two_pow]
    rfl
  rw [magnitude_eq]
  have hsplit := Nat.div_add_mod x.neg.bits.toNat (2 ^ 63)
  rw [hlow, hhigh] at hsplit
  rcases (show x.bits.toNat / 2 ^ 63 = 0 ∨ x.bits.toNat / 2 ^ 63 = 1 by omega)
    with hzero | hone
  · rw [hzero, show 0 ^^^ 1 = 1 from rfl] at hsplit
    rw [if_neg (by rw [hsign]; omega)]
    omega
  · rw [hone, show 1 ^^^ 1 = 0 from rfl] at hsplit
    rw [if_pos (by rw [hsign]; omega)]
    omega

theorem neg_eq_or {x : Binary64} (h : x.isNegative = false) :
    x.neg = ⟨x.bits ||| signMask⟩ := by
  have hbits := toNat_bits x
  have hneg := toNat_neg_bits x
  have hjoin := Nat.two_pow_add_eq_or_of_lt (magnitude_lt x) 1
  rw [h, if_neg Bool.false_ne_true, Nat.zero_add] at hbits
  rw [h, if_neg Bool.false_ne_true] at hneg
  rw [Nat.mul_one, Nat.or_comm] at hjoin
  apply congrArg mk
  change x.neg.bits = x.bits ||| signMask
  rw [← UInt64.toNat_inj, hneg, UInt64.toNat_or, hbits]
  exact hjoin

@[simp] theorem magnitude_neg (x : Binary64) : x.neg.magnitude = x.magnitude := by
  have hlt := magnitude_lt x
  rw [magnitude_eq x.neg, toNat_neg_bits]
  split <;> omega

@[simp] theorem isNegative_neg (x : Binary64) :
    x.neg.isNegative = !x.isNegative := by
  have hlt := magnitude_lt x
  have hneg := isNegative_iff x.neg
  rw [toNat_neg_bits] at hneg
  rw [Bool.eq_iff_iff, hneg]
  cases x.isNegative with
  | false => exact ⟨fun _ => rfl, fun _ => Nat.le_add_right _ _⟩
  | true =>
      refine ⟨fun h => ?_, fun h => nomatch h⟩
      rw [if_pos rfl] at h
      omega

@[simp] theorem neg_neg (x : Binary64) : x.neg.neg = x :=
  ext_fields (by simp) (by simp)

@[simp] theorem magnitude_abs (x : Binary64) : x.abs.magnitude = x.magnitude := by
  rw [magnitude_eq, toNat_abs_bits, magnitude_eq, Nat.mod_mod]

@[simp] theorem isNegative_abs (x : Binary64) : x.abs.isNegative = false := by
  have hlt := magnitude_lt x
  rw [← Bool.not_eq_true, isNegative_iff, toNat_abs_bits, ← magnitude_eq]
  omega

section Kind

variable {x y : Binary64}

theorem isNan_of_magnitude (h : x.magnitude = y.magnitude) : x.isNan = y.isNan := by
  rw [Bool.eq_iff_iff, isNan_iff, isNan_iff, h]

theorem isInfinite_of_magnitude (h : x.magnitude = y.magnitude) :
    x.isInfinite = y.isInfinite := by
  rw [Bool.eq_iff_iff, isInfinite_iff, isInfinite_iff, h]

theorem isFinite_of_magnitude (h : x.magnitude = y.magnitude) :
    x.isFinite = y.isFinite := by
  rw [Bool.eq_iff_iff, isFinite_iff, isFinite_iff, h]

end Kind

@[simp] theorem isNan_neg (x : Binary64) : x.neg.isNan = x.isNan :=
  isNan_of_magnitude (magnitude_neg x)

@[simp] theorem isInfinite_neg (x : Binary64) : x.neg.isInfinite = x.isInfinite :=
  isInfinite_of_magnitude (magnitude_neg x)

@[simp] theorem isFinite_neg (x : Binary64) : x.neg.isFinite = x.isFinite :=
  isFinite_of_magnitude (magnitude_neg x)

@[simp] theorem isNan_abs (x : Binary64) : x.abs.isNan = x.isNan :=
  isNan_of_magnitude (magnitude_abs x)

@[simp] theorem isInfinite_abs (x : Binary64) : x.abs.isInfinite = x.isInfinite :=
  isInfinite_of_magnitude (magnitude_abs x)

@[simp] theorem isFinite_abs (x : Binary64) : x.abs.isFinite = x.isFinite :=
  isFinite_of_magnitude (magnitude_abs x)

theorem payload?_of_magnitude {x y : Binary64} (h : x.magnitude = y.magnitude) :
    x.payload? = y.payload? := by
  have hnan := isNan_of_magnitude h
  have hfraction : x.bits &&& fractionMask = y.bits &&& fractionMask := by
    rw [magnitude_eq, magnitude_eq] at h
    rw [← UInt64.toNat_inj, toNat_and_fractionMask, toNat_and_fractionMask]
    omega
  rw [payload?, payload?, hnan, hfraction]

theorem isNan_of_payload? {x : Binary64} {payload : UInt64}
    (h : x.payload? = some payload) : x.isNan = true := by
  by_contra hnan
  rw [payload?, if_neg hnan] at h
  cases h

theorem or_and (a b mask : UInt64) : (a ||| b) &&& mask = a &&& mask ||| b &&& mask :=
  UInt64.toBitVec_inj.mp BitVec.and_or_distrib_right

section Quieted

variable {x : Binary64}

theorem quieted_of_not_isNan (h : x.isNan = false) : x.quieted = x := by
  rw [quieted, h, if_neg Bool.false_ne_true]

theorem quieted_of_isFinite (h : x.isFinite = true) : x.quieted = x :=
  quieted_of_not_isNan (isInfinite_of_isFinite h).2

theorem or_quietBit {word : UInt64} (h : word &&& quietBit ≠ 0) : word ||| quietBit = word := by
  rw [Ne, ← UInt64.toNat_inj, UInt64.toNat_and,
    show quietBit.toNat = (2 ^ 1 - 1) * 2 ^ 51 from rfl] at h
  obtain ⟨i, hlow, hhigh, hbit⟩ := (and_shifted_ones_ne_zero_iff _ 1 51).mp h
  obtain rfl : i = 51 := by omega
  rw [← UInt64.toNat_inj, UInt64.toNat_or, show quietBit.toNat = 2 ^ 51 from rfl]
  apply Nat.eq_of_testBit_eq
  intro j
  rw [Nat.testBit_or, Nat.testBit_two_pow]
  by_cases hj : 51 = j
  · simp [← hj, hbit]
  · simp [hj]

theorem quieted_of_isQuiet (h : x.IsQuiet) : x.quieted = x := by
  cases hnan : x.isNan with
  | false => exact quieted_of_not_isNan hnan
  | true =>
      have hquiet := h hnan
      rw [isQuietNan, Bool.and_eq_true, bne_iff_ne] at hquiet
      rw [quieted, if_pos hnan, or_quietBit hquiet.2]

@[simp] theorem isNegative_quieted (x : Binary64) :
    x.quieted.isNegative = x.isNegative := by
  rw [quieted]
  split
  · rw [isNegative, or_and, show quietBit &&& signMask = 0 from rfl, UInt64.or_zero,
      isNegative]
  · rfl

@[simp] theorem isNan_quieted (x : Binary64) : x.quieted.isNan = x.isNan := by
  rw [quieted]
  split
  · rename_i hnan
    have hquiet : quietBit &&& fractionMask ≠ 0 := by decide
    rw [hnan]
    rw [isNan, Bool.and_eq_true, beq_iff_eq, bne_iff_ne] at hnan ⊢
    rw [or_and, or_and, show quietBit &&& exponentMask = 0 from rfl, UInt64.or_zero, Ne,
      UInt64.or_eq_zero_iff]
    exact ⟨hnan.1, fun hzero => hquiet hzero.2⟩
  · rfl

theorem magnitude_quieted (h : x.isNan = true) :
    x.quieted.magnitude = x.magnitude ||| quietBit.toNat := by
  rw [quieted, if_pos h, magnitude, abs, or_and, UInt64.toNat_or]
  rfl

@[simp] theorem quieted_neg (x : Binary64) : x.neg.quieted = x.quieted.neg := by
  cases hnan : x.isNan with
  | false => rw [quieted_of_not_isNan hnan, quieted_of_not_isNan (by rwa [isNan_neg])]
  | true =>
      apply ext_fields
      · simp
      · rw [magnitude_neg, magnitude_quieted hnan, magnitude_quieted (by rwa [isNan_neg]),
          magnitude_neg]

theorem payload?_quieted (x : Binary64) :
    x.quieted.payload? = x.payload?.map (· ||| quietBit) := by
  rw [payload?, payload?, isNan_quieted]
  split
  · rename_i hnan
    rw [quieted, if_pos hnan, or_and]
    rfl
  · rfl

end Quieted

theorem toNat_ofMagnitude_word {pattern : Nat} (h : pattern < 2 ^ 63) :
    (UInt64.ofNat pattern).toNat = pattern := by
  rw [UInt64.toNat_ofNat']
  omega

theorem isNegative_ofMagnitude (negative : Bool) {pattern : Nat}
    (h : pattern < 2 ^ 63) : (ofMagnitude negative pattern).isNegative = negative := by
  have hword : (Binary64.mk (UInt64.ofNat pattern)).isNegative = false := by
    rw [← Bool.not_eq_true, isNegative_iff, toNat_ofMagnitude_word h]
    omega
  unfold ofMagnitude
  cases negative <;> simp [hword]

theorem magnitude_ofMagnitude (negative : Bool) {pattern : Nat}
    (h : pattern < 2 ^ 63) : (ofMagnitude negative pattern).magnitude = pattern := by
  have hword : (Binary64.mk (UInt64.ofNat pattern)).magnitude = pattern := by
    rw [magnitude_eq, toNat_ofMagnitude_word h]
    omega
  unfold ofMagnitude
  cases negative <;> simp [hword]

theorem ofMagnitude_fields (x : Binary64) :
    ofMagnitude x.isNegative x.magnitude = x :=
  ext_fields (isNegative_ofMagnitude _ (magnitude_lt x))
    (magnitude_ofMagnitude _ (magnitude_lt x))

theorem ofMagnitude_false (x : Binary64) : ofMagnitude false x.magnitude = x.abs := by
  have hfields := ofMagnitude_fields x.abs
  rw [isNegative_abs, magnitude_abs] at hfields
  exact hfields

theorem copysign_eq (x sign : Binary64) :
    copysign x sign = if sign.isNegative then x.abs.neg else x.abs := by
  have hmask := and_shifted_ones sign.bits.toNat 1 63
  have hword := sign.bits.toNat_lt
  have hsign : sign.bits &&& signMask = if sign.isNegative then signMask else 0 := by
    rw [← UInt64.toNat_inj, UInt64.toNat_and,
      show signMask.toNat = (2 ^ 1 - 1) * 2 ^ 63 from rfl, hmask]
    split
    · rename_i hnegative
      rw [isNegative_iff] at hnegative
      rw [show signMask.toNat = 2 ^ 63 from rfl]
      omega
    · rename_i hnegative
      rw [isNegative_iff] at hnegative
      rw [show (0 : UInt64).toNat = 0 from rfl]
      omega
  rw [copysign, hsign]
  cases sign.isNegative with
  | false => exact congrArg mk UInt64.or_zero
  | true => exact (neg_eq_or (isNegative_abs x)).symm

end WasmFloat.Binary64
