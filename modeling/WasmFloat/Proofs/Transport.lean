import WasmFloat.Binary64.Order
import WasmFloat.Proofs.Nans

/-!
What becomes of a value that travels: it arrives as it was, but for the sign of
zero, unless it lies strictly between `-2 ^ 64` and `-2 ^ 53`. The negative
integer in between is sent as one less than its distance from zero, which is
odd, and no value is an odd integer of this size.
-/

namespace WasmFloat.Binary64

theorem whole_abs (x : Binary64) : x.abs.whole = x.whole := by
  rw [whole, whole, units, units, magnitude_abs]

theorem saturatedWhole_eq {x : Binary64} (h : x.isFinite = true) :
    x.saturatedWhole = Min.min x.whole (2 ^ 64 - 1) := if_pos h

theorem ofWord_of_exact {n : UInt64} (hfinite : (ofNat n.toNat).isFinite = true)
    (hwhole : (ofNat n.toNat).whole = n.toNat) : ofWord n = .ok (ofNat n.toNat) := by
  have hsaturated : (ofNat n.toNat).saturatedWhole = n.toNat := by
    have hlt := n.toNat_lt
    rw [saturatedWhole_eq hfinite, hwhole]
    omega
  unfold ofWord
  exact if_pos hsaturated

theorem ofWord_whole {x : Binary64} (hinteger : x.isInteger = true) {n : UInt64}
    (hn : n.toNat = x.whole) : ofWord n = .ok x.abs := by
  have habs : ofNat n.toNat = x.abs := by rw [hn, ofNat_whole hinteger]
  have hread : ofWord n = .ok (ofNat n.toNat) := by
    apply ofWord_of_exact
    · rw [habs, isFinite_abs, isFinite_of_isInteger hinteger]
    · rw [habs, whole_abs, hn]
  rw [hread, habs]

theorem units_one : one.units = Format.binary64.one := by decide +kernel

theorem sub_one_neg {x y : Binary64} (hx : x.isInteger = true)
    (hsign : x.isNegative = true) (hy : y.isFinite = true)
    (hpositive : y.isNegative = false) {n : ℕ} (hn : n + 1 = x.whole)
    (hunits : y.units = n * Format.binary64.one) : sub one.neg y = x := by
  obtain ⟨hinfinite, hnan⟩ := isInfinite_of_isFinite hy
  have hone := Format.one_pos
  have hxUnits : x.units = (n + 1) * Format.binary64.one := by
    rw [units_of_isInteger hx, hn]
  have hdifference : one.neg.signedUnits - y.signedUnits = -(x.units : ℤ) := by
    have hminus : one.neg.signedUnits = -(Format.binary64.one : ℤ) := by
      rw [signedUnits, if_pos (by decide), units, magnitude_neg, ← units, units_one]
    rw [hminus, signedUnits, hpositive, if_neg Bool.false_ne_true, hunits, hxUnits]
    push_cast
    ring
  have hpos : 0 < x.units := by
    rw [hxUnits]
    exact Nat.mul_pos (Nat.succ_pos n) hone
  have hclosed : one.neg.isNan = false ∧ one.neg.isInfinite = false := by decide
  unfold sub
  rw [hclosed.1, hclosed.2, hnan, hinfinite]
  simp only [Bool.or_self, Bool.false_eq_true, if_false, hdifference]
  rw [ofUnits, if_neg (by omega), decide_eq_true (by omega), Int.natAbs_neg,
    Int.natAbs_natCast, rounded_of_units (isFinite_of_isInteger hx) rfl, ← hsign,
    ofMagnitude_fields]

theorem ofUntagged_small {x : Binary64} (hx : x.isInteger = true)
    (hsign : x.isNegative = true) {n : UInt64} (hn : n.toNat + 1 = x.whole)
    (hsmall : x.whole ≤ 2 ^ 53) : ofUntagged (.negative n) = .ok x := by
  obtain ⟨hfinite, hpositive, hunits⟩ := exists_ofNat (show n.toNat < 2 ^ 53 by omega)
  have hwhole : (ofNat n.toNat).whole = n.toNat := by
    rw [whole, hunits, Nat.mul_div_cancel _ Format.one_pos]
  rw [ofUntagged, ofWord_of_exact hfinite hwhole]
  exact congrArg Except.ok (sub_one_neg hx hsign hfinite hpositive hn hunits)

theorem ofUntagged_refused {x : Binary64} (hx : x.isInteger = true) {n : UInt64}
    (hn : n.toNat + 1 = x.whole) (hlow : 2 ^ 53 < x.whole)
    (hhigh : x.whole < 2 ^ 64) : ofUntagged (.negative n) = .error .outOfRange := by
  have hsize : UInt64.size = 2 ^ 64 := rfl
  have heven := even_whole_of_large (isFinite_of_isInteger hx) hlow.le
  -- The argument is odd and all values this large are even.
  have hinexact : (ofNat n.toNat).saturatedWhole ≠ n.toNat := by
    intro hsame
    cases hfinite : (ofNat n.toNat).isFinite with
    | false =>
        rw [saturatedWhole, hfinite, if_neg Bool.false_ne_true] at hsame
        omega
    | true =>
        rw [saturatedWhole_eq hfinite] at hsame
        have hodd := even_whole_of_large hfinite (by omega)
        omega
  have hword : ofWord n = .error .outOfRange := by
    unfold ofWord
    exact if_neg hinexact
  rw [ofUntagged, hword]
  rfl

/-- The greatest argument rounds up to `2 ^ 64`, and from there the difference
rounds back. -/
theorem ofNat_last : ofNat (0xFFFFFFFFFFFFFFFF : UInt64).toNat = ⟨0x43F0000000000000⟩ := by
  decide +kernel

theorem sub_last : sub one.neg ⟨0x43F0000000000000⟩ = ⟨0xC3F0000000000000⟩ := by
  decide +kernel

theorem ofWord_last : ofWord 0xFFFFFFFFFFFFFFFF = .ok ⟨0x43F0000000000000⟩ := by
  have hsaturated : (Binary64.mk 0x43F0000000000000).saturatedWhole =
      (0xFFFFFFFFFFFFFFFF : UInt64).toNat := by
    decide +kernel
  unfold ofWord
  simp only [ofNat_last]
  exact if_pos hsaturated

theorem eq_last {n : UInt64} (h : n.toNat = 2 ^ 64 - 1) : n = 0xFFFFFFFFFFFFFFFF := by
  apply UInt64.toNat_inj.mp
  rw [h]
  rfl

theorem ofUntagged_last {x : Binary64} (hx : x.isInteger = true)
    (hsign : x.isNegative = true) {n : UInt64} (hn : n.toNat + 1 = x.whole)
    (hlast : x.whole = 2 ^ 64) : ofUntagged (.negative n) = .ok x := by
  have hvalue : x = ⟨0xC3F0000000000000⟩ := by
    have hunits := units_of_isInteger hx
    rw [hlast] at hunits
    have hrounded := rounded_of_units (isFinite_of_isInteger hx) hunits.symm true
    rw [← hsign, ofMagnitude_fields, hsign] at hrounded
    rw [← hrounded]
    decide +kernel
  rw [eq_last (show n.toNat = 2 ^ 64 - 1 by omega), hvalue, ofUntagged, ofWord_last]
  exact congrArg Except.ok sub_last

def InRefusedRange (x : Binary64) : Prop :=
  x.isFinite = true ∧ -(2 : ℚ) ^ 64 < x.value ∧ x.value < -(2 : ℚ) ^ 53

theorem inRefusedRange_iff (x : Binary64) :
    x.InRefusedRange ↔ x.isFinite = true ∧ x.isNegative = true ∧
      2 ^ 53 * Format.binary64.one < x.units ∧
      x.units < 2 ^ 64 * Format.binary64.one := by
  have hvalue : x.value = x.signedUnits / Format.binary64.one := by
    rw [value, Format.one_eq, Nat.cast_pow, Nat.cast_ofNat]
  have hone : (0 : ℚ) < Format.binary64.one := by exact_mod_cast Format.one_pos
  rw [InRefusedRange, hvalue]
  generalize Format.binary64.one = one at hone
  cases hsign : x.isNegative with
  | false =>
      have hnonneg : (0 : ℚ) ≤ x.signedUnits / one := by
        rw [signedUnits, hsign, if_neg Bool.false_ne_true]
        exact div_nonneg (by positivity) hone.le
      refine ⟨fun h => ?_, fun h => absurd h.2.1 Bool.false_ne_true⟩
      have hnegative : -(2 : ℚ) ^ 53 ≤ 0 := by norm_num
      exact absurd h.2.2 (not_lt.mpr (hnegative.trans hnonneg))
  | true =>
      have hunits : (x.signedUnits : ℚ) / one = -(x.units / one) := by
        rw [signedUnits, hsign, if_pos rfl, Int.cast_neg, Int.cast_natCast, neg_div]
      rw [hunits, neg_lt_neg_iff, neg_lt_neg_iff, div_lt_iff₀ hone, lt_div_iff₀ hone]
      constructor
      · rintro ⟨hfinite, hhigh, hlow⟩
        exact ⟨hfinite, rfl, by exact_mod_cast hlow, by exact_mod_cast hhigh⟩
      · rintro ⟨hfinite, -, hlow, hhigh⟩
        exact ⟨hfinite, by exact_mod_cast hhigh, by exact_mod_cast hlow⟩

theorem inRefusedRange_iff_whole {x : Binary64} (h : x.isInteger = true) :
    x.InRefusedRange ↔ x.isNegative = true ∧ 2 ^ 53 < x.whole ∧ x.whole < 2 ^ 64 := by
  rw [inRefusedRange_iff, units_of_isInteger h, Nat.mul_lt_mul_right Format.one_pos,
    Nat.mul_lt_mul_right Format.one_pos, isFinite_of_isInteger h]
  exact ⟨fun hrange => hrange.2, fun hrange => ⟨rfl, hrange⟩⟩

theorem isInteger_of_inRefusedRange {x : Binary64} (h : x.InRefusedRange) :
    x.isInteger = true := by
  obtain ⟨hfinite, _, hlow, _⟩ := (inRefusedRange_iff x).mp h
  exact (isInteger_of_large hfinite hlow.le).1

/-- A number as it arrives: the sign of zero is lost. -/
def arrived (x : Binary64) : Binary64 := if x.isZero then zero else x

theorem abs_eq_arrived {x : Binary64} (h : x.isNegative = true → x.isZero = true) :
    x.abs = x.arrived := by
  rw [arrived]
  split
  · rename_i hzero
    rw [isZero_iff] at hzero
    rw [← ofMagnitude_false, hzero]
    rfl
  · rename_i hzero
    apply ext_fields
    · rw [isNegative_abs]
      cases hsign : x.isNegative with
      | false => rfl
      | true => exact absurd (h hsign) hzero
    · exact magnitude_abs x

theorem arrived_of_ne_zero {x : Binary64} (h : 0 < x.whole) : x.arrived = x := by
  rw [arrived, Item.isZero_eq_false h]
  rfl

theorem arrived_of_isFloatItem {x : Binary64} (h : Item.IsFloatItem x) :
    x.arrived = x := by
  have hzero : x.isZero = false := by
    rw [← Bool.not_eq_true]
    intro hzero
    have hlarge := (h (isInteger_of_isZero hzero)).1
    rw [Item.isZero_eq_false (by omega)] at hzero
    exact Bool.false_ne_true hzero
  rw [arrived, hzero]
  rfl

theorem transport_refused {x : Binary64} (h : x.InRefusedRange) :
    ofTransportBytes x.transportBytes = .error .outOfRange := by
  have hinteger := isInteger_of_inRefusedRange h
  obtain ⟨hsign, hlow, hhigh⟩ := (inRefusedRange_iff_whole hinteger).mp h
  rw [ofTransportBytes_transportBytes,
    toItem_number (isInfinite_of_isFinite (isFinite_of_isInteger hinteger)).2]
  rcases Item.ofNumber_cases x with ⟨_, hzero, _⟩ | ⟨_, _, n, hitem, hn⟩ | ⟨_, hfloat⟩
  · have hne := Item.isZero_eq_false (show 0 < x.whole by omega)
    rw [hzero hsign] at hne
    exact nomatch hne
  · rw [hitem]
    exact ofUntagged_refused hinteger hn hlow hhigh
  · have hlarge := (hfloat hinteger).1
    omega

theorem transport_arrived {x : Binary64} (hnan : x.isNan = false)
    (h : ¬ x.InRefusedRange) :
    ofTransportBytes x.transportBytes = .ok x.arrived := by
  rw [ofTransportBytes_transportBytes, toItem_number hnan]
  rcases Item.ofNumber_cases x with ⟨hinteger, hzero, n, hitem, hn⟩ |
    ⟨hinteger, hsign, n, hitem, hn⟩ | ⟨hitem, hfloat⟩
  · rw [hitem, ← abs_eq_arrived hzero]
    exact ofWord_whole hinteger hn
  · rw [hitem, arrived_of_ne_zero (by omega)]
    rw [inRefusedRange_iff_whole hinteger] at h
    have hword := n.toNat_lt
    rcases Nat.lt_or_ge (2 ^ 53) x.whole with hlarge | hsmall
    · have hge : ¬ x.whole < 2 ^ 64 := fun hlt => h ⟨hsign, hlarge, hlt⟩
      exact ofUntagged_last hinteger hsign hn (by omega)
    · exact ofUntagged_small hinteger hsign hn hsmall
  · rw [hitem, arrived_of_isFloatItem hfloat]
    rfl

theorem arrived_negZero : negZero.arrived = zero := by decide

theorem arrived_eq_self {x : Binary64} (h : x ≠ negZero) : x.arrived = x := by
  rw [arrived]
  split
  · rename_i hzero
    have hmagnitude := (isZero_iff x).mp hzero
    have hsign : x.isNegative = false := by
      rw [← Bool.not_eq_true]
      intro hsign
      exact h (ext_fields hsign hmagnitude)
    exact (ext_fields hsign hmagnitude).symm
  · rfl

theorem eq_arrived {x : Binary64} (hnan : x.isNan = false) :
    eq x.arrived x = true := by
  have hself : eq x x = true := by
    rw [eq, ordered, hnan, beq_self_eq_true]
    rfl
  by_cases hzero : x = negZero
  · rw [hzero, arrived_negZero]
    decide
  · rw [arrived_eq_self hzero]
    exact hself

/-- The value arrives numerically equal, and with the same bits unless it is
negative zero. -/
def KeepsNumber (x : Binary64) : Prop :=
  ∃ y, ofTransportBytes x.transportBytes = .ok y ∧ eq y x = true ∧
    (x ≠ negZero → y = x) ∧ (x = negZero → y = zero)

/-- Exactly the values outside one range of negative integers survive transport;
those inside are refused. -/
theorem keepsNumber_iff {x : Binary64} (hnan : x.isNan = false) :
    (x.KeepsNumber ↔ ¬ x.InRefusedRange) ∧
      (x.InRefusedRange →
        ofTransportBytes x.transportBytes = .error .outOfRange) := by
  refine ⟨⟨?_, ?_⟩, transport_refused⟩
  · rintro ⟨y, hread, -⟩ hrange
    rw [transport_refused hrange] at hread
    exact nomatch hread
  · intro hrange
    refine ⟨x.arrived, transport_arrived hnan hrange, eq_arrived hnan,
      arrived_eq_self, ?_⟩
    rintro rfl
    exact arrived_negZero

/-- The value `-2 ^ 64` is at the end of the range. -/
theorem keepsNumber_last :
    (Binary64.mk 0xC3F0000000000000).isNan = false ∧
      (Binary64.mk 0xC3F0000000000000).KeepsNumber := by
  have hrange : ¬ (Binary64.mk 0xC3F0000000000000).InRefusedRange := by
    rw [inRefusedRange_iff]
    decide +kernel
  exact ⟨by decide, (keepsNumber_iff (by decide)).1.mpr hrange⟩

/-- Not every number keeps its value: `-2 ^ 53 - 2` does not arrive. -/
theorem not_forall_keepsNumber :
    ¬ ∀ x : Binary64, x.isNan = false → x.KeepsNumber := by
  intro h
  have hrange : (Binary64.mk 0xC340000000000001).InRefusedRange := by
    rw [inRefusedRange_iff]
    decide +kernel
  obtain ⟨y, hread, -⟩ := h ⟨0xC340000000000001⟩ (by decide)
  rw [transport_refused hrange] at hread
  exact nomatch hread

theorem arrived_eq_ite (x : Binary64) :
    x.arrived = if x = negZero then zero else x := by
  split
  · rename_i hzero
    rw [hzero, arrived_negZero]
  · rename_i hzero
    exact arrived_eq_self hzero

theorem ne_negZero_of_isNan {x : Binary64} (hnan : x.isNan = true) : x ≠ negZero := by
  rintro rfl
  exact absurd hnan (by decide)

theorem ofItem_toItem_arrived {x : Binary64} (h : ¬ x.InRefusedRange) :
    ofItem x.toItem = .ok x.arrived := by
  cases hnan : x.isNan with
  | true =>
      rw [ofItem_toItem_of_isNan hnan, arrived_eq_self (ne_negZero_of_isNan hnan)]
  | false =>
      rw [← ofTransportBytes_transportBytes]
      exact transport_arrived hnan h

/-- A value is refused exactly in the range, and from outside it arrives with
its bits; only negative zero arrives as zero. -/
theorem transport_outcome (x : Binary64) :
    ∃ item, Item.decode x.transportBytes = .ok item ∧
      (ofItem item = .error .outOfRange ↔ x.InRefusedRange) ∧
      ∀ y, ofItem item = .ok y ↔
        ¬ x.InRefusedRange ∧ y = if x = negZero then zero else x := by
  refine ⟨x.toItem, decode_transportBytes x, ?_⟩
  rw [← arrived_eq_ite]
  by_cases hrange : x.InRefusedRange
  · have hread : ofItem x.toItem = .error .outOfRange := by
      rw [← ofTransportBytes_transportBytes]
      exact transport_refused hrange
    rw [hread]
    simp [hrange]
  · rw [ofItem_toItem_arrived hrange]
    simp [hrange, eq_comm]

end WasmFloat.Binary64
