import WasmFloat.Binary64.Order
import WasmFloat.Proofs.Rounded

namespace WasmFloat.Binary64

variable {x y : Binary64}

theorem isZero_iff_eq : x.isZero = true ↔ x = zero ∨ x = negZero := by
  constructor
  · intro hzero
    rw [isZero_iff] at hzero
    cases hsign : x.isNegative with
    | false => exact Or.inl (ext_fields hsign hzero)
    | true => exact Or.inr (ext_fields hsign hzero)
  · rintro (rfl | rfl) <;> decide

theorem rank_eq_rank_iff :
    x.rank = y.rank ↔ x = y ∨ (x.isZero = true ∧ y.isZero = true) := by
  rw [isZero_iff, isZero_iff]
  constructor
  · intro hrank
    by_cases hsign : x.isNegative = y.isNegative
    · refine Or.inl (ext_fields hsign ?_)
      rw [rank, rank, hsign] at hrank
      split at hrank <;> omega
    · right
      rw [rank, rank] at hrank
      cases hx : x.isNegative <;> cases hy : y.isNegative <;> simp_all
  · rintro (rfl | ⟨hx, hy⟩)
    · rfl
    · simp [rank, hx, hy]

@[simp] theorem rank_neg (x : Binary64) : x.neg.rank = -x.rank := by
  rw [rank, rank, isNegative_neg, magnitude_neg]
  cases x.isNegative <;> simp

theorem rank_ofMagnitude_false {pattern : ℕ} (h : pattern < 2 ^ 63) :
    (ofMagnitude false pattern).rank = pattern := by
  rw [rank, isNegative_ofMagnitude false h, magnitude_ofMagnitude false h,
    if_neg Bool.false_ne_true]

theorem ordered_of_isNan (h : x.isNan = true ∨ y.isNan = true) : ordered x y = false := by
  rcases h with hx | hy
  · simp [ordered, hx]
  · simp [ordered, hy]

theorem ordered_eq_true (hx : x.isNan = false) (hy : y.isNan = false) :
    ordered x y = true := by
  simp [ordered, hx, hy]

theorem isNan_of_eq (h : eq x y = true) : x.isNan = false := by
  rw [← Bool.not_eq_true]
  intro hnan
  simp [eq, ordered_of_isNan (Or.inl hnan)] at h

theorem ordered_comm (x y : Binary64) : ordered x y = ordered y x :=
  Bool.and_comm _ _

theorem le_neg_neg (x y : Binary64) : le x.neg y.neg = le y x := by
  simp [le, ordered, Bool.and_comm]

theorem le_ofMagnitude {lower upper : ℕ} (hle : lower ≤ upper)
    (hupper : upper < Format.binary64.infinity) :
    le (ofMagnitude false lower) (ofMagnitude false upper) = true := by
  have hlower := Nat.lt_of_le_of_lt hle hupper
  rw [le, ordered_eq_true (isNan_ofMagnitude false hlower.le)
    (isNan_ofMagnitude false hupper.le),
    rank_ofMagnitude_false (hlower.trans infinity_lt),
    rank_ofMagnitude_false (hupper.trans infinity_lt), Bool.true_and, decide_eq_true_eq]
  exact_mod_cast hle

/-- Equal values that are not identical are zeros of either sign. -/
theorem or_bits_eq (h : x.rank = y.rank) :
    mk (x.bits ||| y.bits) = x ∨ mk (x.bits ||| y.bits) = y := by
  rcases rank_eq_rank_iff.mp h with rfl | ⟨hx, hy⟩
  · simp
  · rcases isZero_iff_eq.mp hx with rfl | rfl <;>
      rcases isZero_iff_eq.mp hy with rfl | rfl <;> decide

theorem and_bits_eq (h : x.rank = y.rank) :
    mk (x.bits &&& y.bits) = x ∨ mk (x.bits &&& y.bits) = y := by
  rcases rank_eq_rank_iff.mp h with rfl | ⟨hx, hy⟩
  · simp
  · rcases isZero_iff_eq.mp hx with rfl | rfl <;>
      rcases isZero_iff_eq.mp hy with rfl | rfl <;> decide

theorem min_of_isNan (h : x.isNan = true ∨ y.isNan = true) : min x y = nan := by
  simp [min, eq, lt, ordered_comm y x, ordered_of_isNan h]

theorem max_of_isNan (h : x.isNan = true ∨ y.isNan = true) : max x y = nan := by
  simp [max, eq, gt, lt, ordered_comm y x, ordered_of_isNan h]

theorem min_eq_or (hx : x.isNan = false) (hy : y.isNan = false) :
    min x y = x ∨ min x y = y := by
  simp only [min, eq, lt, ordered_eq_true hx hy, ordered_eq_true hy hx, Bool.true_and,
    beq_iff_eq, decide_eq_true_eq]
  rcases lt_trichotomy x.rank y.rank with hlt | heq | hgt
  · simp [hlt, hlt.ne]
  · rw [if_pos heq]
    exact or_bits_eq heq
  · simp [hgt, hgt.ne', hgt.not_gt]

theorem max_eq_or (hx : x.isNan = false) (hy : y.isNan = false) :
    max x y = x ∨ max x y = y := by
  simp only [max, eq, gt, lt, ordered_eq_true hx hy, ordered_eq_true hy hx, Bool.true_and,
    beq_iff_eq, decide_eq_true_eq]
  rcases lt_trichotomy x.rank y.rank with hlt | heq | hgt
  · simp [hlt, hlt.ne, hlt.not_gt]
  · rw [if_pos heq]
    exact and_bits_eq heq
  · simp [hgt, hgt.ne']

theorem isNan_min (h : ¬ (x.isNan = true ∨ y.isNan = true)) :
    (min x y).isNan = false := by
  rw [not_or, Bool.not_eq_true, Bool.not_eq_true] at h
  rcases min_eq_or h.1 h.2 with hmin | hmin
  · rw [hmin, h.1]
  · rw [hmin, h.2]

theorem isNan_max (h : ¬ (x.isNan = true ∨ y.isNan = true)) :
    (max x y).isNan = false := by
  rw [not_or, Bool.not_eq_true, Bool.not_eq_true] at h
  rcases max_eq_or h.1 h.2 with hmax | hmax
  · rw [hmax, h.1]
  · rw [hmax, h.2]

end WasmFloat.Binary64
