import WasmFloat.Proofs.IntegralRounding
import WasmFloat.Proofs.Sums
import WasmFloat.Proofs.Transport

namespace WasmFloat.Binary64

variable {x : Binary64}

def IsRepresentable (k : ℤ) : Prop := ∃ x : Binary64, x.isFinite = true ∧ x.value = k

theorem IsRepresentable.neg {k : ℤ} (h : IsRepresentable k) : IsRepresentable (-k) := by
  obtain ⟨x, hfinite, hvalue⟩ := h
  exact ⟨x.neg, by rwa [isFinite_neg], by rw [value_neg, hvalue, Int.cast_neg]⟩

theorem isInteger_of_value {n : ℕ} (hfinite : x.isFinite = true) (h : x.value = n) :
    x.isInteger = true ∧ x.whole = n := by
  have hunits : x.units = n * Format.binary64.one := by
    rw [← absValue_eq_iff, ← abs_value, h, Nat.abs_cast]
  refine ⟨isInteger_of_units hfinite hunits, ?_⟩
  rw [whole, hunits, Nat.mul_div_cancel _ Format.one_pos]

theorem isRepresentable_of_le {n : ℕ} (h : n ≤ 2 ^ 53) : IsRepresentable n := by
  obtain ⟨hfinite, hsign, hunits⟩ := zero.fields_integral h
  refine ⟨zero.integral n, hfinite, ?_⟩
  rw [value_of_units (hsign.trans (by decide)) hunits, Int.cast_natCast]

theorem even_of_isRepresentable {n : ℕ} (hlarge : 2 ^ 53 ≤ n) (h : IsRepresentable n) :
    n % 2 = 0 := by
  obtain ⟨x, hfinite, hvalue⟩ := h
  have hwhole := (isInteger_of_value hfinite (by rw [hvalue, Int.cast_natCast])).2
  have heven := even_whole_of_large hfinite (by omega)
  omega

theorem lt_overflowBound {q : ℚ} (h : q ≤ 2 ^ 64) : q < (2 : ℚ) ^ 1024 - 2 ^ 970 := by
  have hbound : (2 : ℚ) ^ 64 ≤ 2 ^ 970 := pow_le_pow_right₀ (by norm_num) (by norm_num)
  rw [show (2 : ℚ) ^ 1024 = 2 ^ 970 * 2 ^ 54 by rw [← pow_add]]
  generalize (2 : ℚ) ^ 970 = scale at hbound ⊢
  linarith

theorem isNearestValue_ofNat {n : ℕ} (h : n ≤ 2 ^ 64) : (ofNat n).IsNearestValue n := by
  have hrounds : (ofNat n).RoundsTo false n := by
    apply roundsTo_rounded false _ Nat.one_pos
    rw [Format.one_eq, Nat.cast_one, div_one, Nat.cast_mul, Nat.cast_pow, Nat.cast_ofNat]
  have hnonneg : (0 : ℚ) ≤ n := Nat.cast_nonneg n
  apply IsNearest.value
  · intro _
    rw [hrounds.sign, decide_eq_false hnonneg.not_gt]
  · rw [abs_of_nonneg hnonneg]
    exact hrounds.nearest (lt_overflowBound (by exact_mod_cast h))

/-- What is a value is its own nearest one. -/
theorem IsNearestValue.value_eq_of_isRepresentable {k : ℤ} (h : x.IsNearestValue k)
    (hk : IsRepresentable k) : x.value = k := by
  obtain ⟨y, hfinite, hvalue⟩ := hk
  have hclosest := h.closest y hfinite
  rw [hvalue, sub_self, abs_zero, abs_nonpos_iff] at hclosest
  exact sub_eq_zero.mp hclosest

/-- An argument that is a value, or that is cut back to the greatest one. -/
def IsAccepted (n : UInt64) : Prop := IsRepresentable n.toNat ∨ n.toNat = 2 ^ 64 - 1

theorem value_ofNat {n : UInt64} (h : IsRepresentable n.toNat) :
    (ofNat n.toNat).isFinite = true ∧ (ofNat n.toNat).value = n.toNat := by
  have hnearest := isNearestValue_ofNat n.toNat_lt.le
  exact ⟨hnearest.isFinite, by exact_mod_cast hnearest.value_eq_of_isRepresentable h⟩

theorem ofWord_of_isAccepted {n : UInt64} (h : IsAccepted n) :
    ofWord n = .ok (ofNat n.toNat) := by
  rcases h with hexact | hlast
  · obtain ⟨hfinite, hvalue⟩ := value_ofNat hexact
    exact ofWord_of_exact hfinite (isInteger_of_value hfinite hvalue).2
  · rw [eq_last hlast, ofWord_last, ofNat_last]

theorem isAccepted_of_saturatedWhole {n : UInt64}
    (h : (ofNat n.toNat).saturatedWhole = n.toNat) : IsAccepted n := by
  have hfinite := (isNearestValue_ofNat n.toNat_lt.le).isFinite
  by_cases hlast : n.toNat = 2 ^ 64 - 1
  · exact Or.inr hlast
  by_cases hsmall : n.toNat ≤ 2 ^ 53
  · exact Or.inl (isRepresentable_of_le hsmall)
  have hword := n.toNat_lt
  have hwhole : (ofNat n.toNat).whole = n.toNat := by
    rw [saturatedWhole_eq hfinite] at h
    omega
  have hinteger : (ofNat n.toNat).isInteger = true := by
    apply (isInteger_of_large hfinite ?_).1
    apply (Nat.le_div_iff_mul_le Format.one_pos).mp
    rw [← whole.eq_1, hwhole]
    omega
  have hunits := units_of_isInteger hinteger
  rw [hwhole] at hunits
  have hpositive : (ofNat n.toNat).isNegative = false := isNegative_rounded _ _ _
  refine Or.inl ⟨ofNat n.toNat, hfinite, ?_⟩
  rw [value_of_units hpositive hunits, Int.cast_natCast]

theorem ofWord_of_not_isAccepted {n : UInt64} (h : ¬ IsAccepted n) :
    ofWord n = .error .outOfRange := by
  unfold ofWord
  exact if_neg fun hback => h (isAccepted_of_saturatedWhole hback)

structure IsReadByArgument (item : Item) (n : UInt64) (k : ℤ) : Prop where
  accepted : (∃ x, ofItem item = .ok x) ↔ IsAccepted n
  nearest : ∀ x, ofItem item = .ok x → x.IsNearestValue k
  refused : ¬ IsAccepted n → ofItem item = .error .outOfRange

/-- An integer item is read as its integer if a value is this integer, and is refused
if there is none. -/
structure DecodesExactly (item : Item) (k : ℤ) : Prop where
  accepted : (∃ x, ofItem item = .ok x) ↔ IsRepresentable k
  value : ∀ x, ofItem item = .ok x → x.isFinite = true ∧ x.value = k
  refused : ¬ IsRepresentable k → ofItem item = .error .outOfRange

theorem isReadByArgument_of_map {item : Item} {n : UInt64} {k : ℤ}
    (convert : Binary64 → Binary64) (hitem : ofItem item = (ofWord n).map convert)
    (hnearest : IsAccepted n → (convert (ofNat n.toNat)).IsNearestValue k) :
    IsReadByArgument item n k := by
  have hread : IsAccepted n → ofItem item = .ok (convert (ofNat n.toNat)) := by
    intro h
    rw [hitem, ofWord_of_isAccepted h]
    rfl
  have hrefused : ¬ IsAccepted n → ofItem item = .error .outOfRange := by
    intro h
    rw [hitem, ofWord_of_not_isAccepted h]
    rfl
  have haccepted : ∀ x, ofItem item = .ok x → IsAccepted n := by
    intro x hx
    by_contra h
    rw [hrefused h] at hx
    exact nomatch hx
  refine ⟨⟨fun ⟨x, hx⟩ => haccepted x hx, fun h => ⟨_, hread h⟩⟩, fun x hx => ?_, hrefused⟩
  have h := haccepted x hx
  rw [hread h, Except.ok.injEq] at hx
  rw [← hx]
  exact hnearest h

theorem isReadByArgument_unsigned (n : UInt64) :
    IsReadByArgument (.unsigned n) n n.toNat := by
  apply isReadByArgument_of_map id
  · change ofWord n = _
    cases ofWord n <;> rfl
  · intro _
    exact_mod_cast isNearestValue_ofNat n.toNat_lt.le

theorem value_one_neg : one.neg.value = -1 := by
  have hone : one.value = (1 : ℕ) :=
    value_of_units (by decide) (by rw [units_one, Nat.one_mul])
  rw [value_neg, hone, Nat.cast_one]

theorem isNearestValue_self (hfinite : x.isFinite = true) : x.IsNearestValue x.value := by
  refine ⟨hfinite, fun y _ => ?_, fun y _ hne heq => ?_⟩
  · rw [sub_self, abs_zero]
    exact abs_nonneg _
  · rw [sub_self, abs_zero] at heq
    exact absurd (sub_eq_zero.mp (abs_eq_zero.mp heq.symm)) hne

theorem isNearestValue_sub {n : UInt64} (h : IsAccepted n) :
    (sub one.neg (ofNat n.toNat)).IsNearestValue (-1 - n.toNat : ℤ) := by
  have hword := n.toNat_lt
  rcases h with hexact | hlast
  · obtain ⟨hfinite, hvalue⟩ := value_ofNat hexact
    have hsum : one.neg.value + (ofNat n.toNat).neg.value = (-1 - n.toNat : ℤ) := by
      rw [value_one_neg, value_neg, hvalue]
      push_cast
      ring
    rw [sub_eq_add_neg, ← hsum]
    apply isNearestValue_add (by decide) (by rwa [isFinite_neg])
    apply lt_overflowBound
    rw [hsum, ← Int.cast_abs]
    have hsize : |(-1 - n.toNat : ℤ)| ≤ 2 ^ 64 := abs_le.mpr ⟨by omega, by omega⟩
    exact_mod_cast hsize
  · have hunits : (Binary64.mk 0xC3F0000000000000).units = 2 ^ 64 * Format.binary64.one := by
      decide +kernel
    have hvalue : (Binary64.mk 0xC3F0000000000000).value = (-1 - n.toNat : ℤ) := by
      rw [value_eq, if_pos (by decide), absValue_of_units hunits, hlast]
      norm_num
    rw [eq_last hlast, ofNat_last, sub_last, ← eq_last hlast, ← hvalue]
    exact isNearestValue_self (by decide)

theorem isReadByArgument_negative (n : UInt64) :
    IsReadByArgument (.negative n) n (-1 - n.toNat) :=
  isReadByArgument_of_map (sub one.neg) rfl isNearestValue_sub

/-- It is exact where the argument is accepted just if the integer is a value. -/
theorem IsReadByArgument.decodesExactly_iff {item : Item} {n : UInt64} {k : ℤ}
    (h : IsReadByArgument item n k) :
    DecodesExactly item k ↔ (IsAccepted n ↔ IsRepresentable k) := by
  constructor
  · intro hexact
    rw [← h.accepted, hexact.accepted]
  · intro hsame
    refine ⟨h.accepted.trans hsame, fun x hx => ?_, fun hk => h.refused (hsame.not.mpr hk)⟩
    have hnearest := h.nearest x hx
    have hk := hsame.mp (h.accepted.mp ⟨x, hx⟩)
    exact ⟨hnearest.isFinite, hnearest.value_eq_of_isRepresentable hk⟩

theorem not_isRepresentable_last {n : UInt64} (h : n.toNat = 2 ^ 64 - 1) :
    ¬ IsRepresentable n.toNat := by
  intro hexact
  have heven := even_of_isRepresentable (by omega) hexact
  omega

theorem isRepresentable_negative_iff (n : ℕ) :
    IsRepresentable (-1 - n) ↔ IsRepresentable ((n + 1 : ℕ) : ℤ) := by
  have hneg : (-1 - n : ℤ) = -((n + 1 : ℕ) : ℤ) := by omega
  rw [hneg]
  refine ⟨fun h => ?_, IsRepresentable.neg⟩
  have hback := h.neg
  rwa [Int.neg_neg] at hback

theorem isRepresentable_two_pow_64 : IsRepresentable ((2 ^ 64 : ℕ) : ℤ) := by
  have hunits : (Binary64.mk 0x43F0000000000000).units = 2 ^ 64 * Format.binary64.one := by
    decide +kernel
  refine ⟨⟨0x43F0000000000000⟩, by decide, ?_⟩
  rw [value_of_units (by decide) hunits, Int.cast_natCast]

theorem decodesExactly_unsigned_iff (n : UInt64) :
    DecodesExactly (.unsigned n) n.toNat ↔ n.toNat ≠ 2 ^ 64 - 1 := by
  rw [(isReadByArgument_unsigned n).decodesExactly_iff, IsAccepted]
  have hlast := @not_isRepresentable_last n
  tauto

/-- From `2 ^ 53` on, of two neighbours one at most is a value. -/
theorem decodesExactly_negative_iff (n : UInt64) :
    DecodesExactly (.negative n) (-1 - n.toNat) ↔
      n.toNat < 2 ^ 53 ∨ n.toNat = 2 ^ 64 - 1 ∨
        ¬ IsRepresentable n.toNat ∧ ¬ IsRepresentable ((n.toNat + 1 : ℕ) : ℤ) := by
  rw [(isReadByArgument_negative n).decodesExactly_iff, isRepresentable_negative_iff,
    IsAccepted]
  by_cases hsmall : n.toNat < 2 ^ 53
  · have hn := isRepresentable_of_le hsmall.le
    have hnext := isRepresentable_of_le (show n.toNat + 1 ≤ 2 ^ 53 from hsmall)
    tauto
  by_cases hlast : n.toNat = 2 ^ 64 - 1
  · have hnext : IsRepresentable ((n.toNat + 1 : ℕ) : ℤ) := by
      rw [hlast]
      exact isRepresentable_two_pow_64
    tauto
  have hneighbours : ¬ (IsRepresentable n.toNat ∧ IsRepresentable ((n.toNat + 1 : ℕ) : ℤ)) := by
    rintro ⟨hn, hnext⟩
    have heven := even_of_isRepresentable (by omega) hn
    have hnextEven := even_of_isRepresentable (by omega) hnext
    omega
  tauto

/-- An integer item is accepted if its argument is a value or the greatest one, and is
read as the value nearest to its integer. This is exact for a nonnegative integer, the
greatest one apart, and for a negative integer from `-2 ^ 53` up, at `-2 ^ 64`, and where
neither the integer nor its upper neighbour is a value. -/
theorem integer_item_outcome (n : UInt64) :
    IsReadByArgument (.unsigned n) n n.toNat ∧
      IsReadByArgument (.negative n) n (-1 - n.toNat) ∧
      (DecodesExactly (.unsigned n) n.toNat ↔ n.toNat ≠ 2 ^ 64 - 1) ∧
      (DecodesExactly (.negative n) (-1 - n.toNat) ↔
        n.toNat < 2 ^ 53 ∨ n.toNat = 2 ^ 64 - 1 ∨
          ¬ IsRepresentable n.toNat ∧ ¬ IsRepresentable ((n.toNat + 1 : ℕ) : ℤ)) :=
  ⟨isReadByArgument_unsigned n, isReadByArgument_negative n,
    decodesExactly_unsigned_iff n, decodesExactly_negative_iff n⟩

/-- Not every integer is read exactly or refused: `2 ^ 64 - 1` is read as `2 ^ 64`. -/
theorem not_forall_decodesExactly :
    ¬ ∀ n : UInt64, DecodesExactly (.unsigned n) n.toNat ∧
      DecodesExactly (.negative n) (-1 - n.toNat) := by
  intro h
  have hexact := (h 0xFFFFFFFFFFFFFFFF).1.accepted.mp ⟨_, ofWord_last⟩
  exact not_isRepresentable_last rfl hexact

end WasmFloat.Binary64
