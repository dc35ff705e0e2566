import WasmFloat.Proofs.Numbers

namespace WasmFloat.Binary64

variable {x y : Binary64}

/-- The place of a pattern on a line without ties: negative zero stands right
before positive zero. -/
def place (x : Binary64) : ℤ :=
  if x.isNegative then -(x.magnitude : ℤ) - 1 else x.magnitude

theorem place_injective : Function.Injective place := by
  intro x y h
  cases hx : x.isNegative <;> cases hy : y.isNegative <;>
    simp only [place, hx, hy, Bool.false_eq_true, if_true, if_false] at h
  case false.true | true.false => omega
  all_goals exact ext_fields (hx.trans hy.symm) (by omega)

theorem place_neg (x : Binary64) : x.neg.place = -1 - x.place := by
  rw [place, place, isNegative_neg, magnitude_neg]
  cases x.isNegative <;> simp <;> omega

theorem place_lt_of_rank_lt (h : x.rank < y.rank) : x.place < y.place := by
  cases hx : x.isNegative <;> cases hy : y.isNegative <;>
    simp only [rank, place, hx, hy, Bool.false_eq_true, if_true, if_false] at h ⊢
  case false.false => exact h
  case false.true => omega
  case true.false => omega
  case true.true => omega

/-- The order of the numbers that values denote, with negative zero before
positive zero. -/
def AtMost (x y : Binary64) : Prop :=
  x.number < y.number ∨ x = y ∨ (x = negZero ∧ y = zero)

theorem atMost_iff (hx : x.isNan = false) (hy : y.isNan = false) :
    AtMost x y ↔ x.place ≤ y.place := by
  rw [AtMost, number_lt_iff hx hy]
  constructor
  · rintro (hlt | rfl | ⟨rfl, rfl⟩)
    · exact (place_lt_of_rank_lt hlt).le
    · exact le_rfl
    · decide
  · intro hle
    rcases lt_trichotomy x.rank y.rank with hlt | heq | hgt
    · exact Or.inl hlt
    · right
      rcases rank_eq_rank_iff.mp heq with rfl | ⟨hxZero, hyZero⟩
      · exact Or.inl rfl
      · rcases isZero_iff_eq.mp hxZero with rfl | rfl <;>
          rcases isZero_iff_eq.mp hyZero with rfl | rfl
        · exact Or.inl rfl
        · exact absurd hle (by decide)
        · exact Or.inr ⟨rfl, rfl⟩
        · exact Or.inl rfl
    · exact absurd hle (place_lt_of_rank_lt hgt).not_ge

/-- Of values with equal ranks the union of the bits is the first on the line, and
their intersection is the last. -/
theorem place_or_and (h : x.rank = y.rank) :
    (mk (x.bits ||| y.bits)).place = Min.min x.place y.place ∧
      (mk (x.bits &&& y.bits)).place = Max.max x.place y.place := by
  rcases rank_eq_rank_iff.mp h with rfl | ⟨hx, hy⟩
  · simp
  · rcases isZero_iff_eq.mp hx with rfl | rfl <;>
      rcases isZero_iff_eq.mp hy with rfl | rfl <;> decide

/-- An operation that gives the canonical NaN for any NaN, and otherwise a value at
the place chosen from those of its operands. -/
structure PlacedBy (choice : ℤ → ℤ → ℤ) (op : Binary64 → Binary64 → Binary64) : Prop where
  nan : ∀ {x y : Binary64}, x.isNan = true ∨ y.isNan = true → op x y = nan
  isNan : ∀ {x y : Binary64}, x.isNan = false → y.isNan = false → (op x y).isNan = false
  place : ∀ {x y : Binary64}, x.isNan = false → y.isNan = false →
    (op x y).place = choice x.place y.place

theorem placedBy_min : PlacedBy Min.min min where
  nan := min_of_isNan
  isNan hx hy := isNan_min (by simp [hx, hy])
  place {x y} hx hy := by
    simp only [min, eq, lt, ordered_eq_true hx hy, ordered_eq_true hy hx, Bool.true_and,
      beq_iff_eq, decide_eq_true_eq]
    rcases lt_trichotomy x.rank y.rank with hlt | heq | hgt
    · rw [if_neg hlt.ne, if_pos hlt, min_eq_left (place_lt_of_rank_lt hlt).le]
    · rw [if_pos heq, (place_or_and heq).1]
    · rw [if_neg hgt.ne', if_neg hgt.not_gt, if_pos hgt,
        min_eq_right (place_lt_of_rank_lt hgt).le]

theorem placedBy_max : PlacedBy Max.max max where
  nan := max_of_isNan
  isNan hx hy := isNan_max (by simp [hx, hy])
  place {x y} hx hy := by
    simp only [max, eq, gt, lt, ordered_eq_true hx hy, ordered_eq_true hy hx, Bool.true_and,
      beq_iff_eq, decide_eq_true_eq]
    rcases lt_trichotomy x.rank y.rank with hlt | heq | hgt
    · rw [if_neg hlt.ne, if_neg hlt.not_gt, if_pos hlt,
        max_eq_right (place_lt_of_rank_lt hlt).le]
    · rw [if_pos heq, (place_or_and heq).2]
    · rw [if_neg hgt.ne', if_pos hgt, max_eq_left (place_lt_of_rank_lt hgt).le]

namespace PlacedBy

variable {choice : ℤ → ℤ → ℤ} {op : Binary64 → Binary64 → Binary64}

theorem eq_of_place (h : PlacedBy choice op) {z : Binary64} (hx : x.isNan = false)
    (hy : y.isNan = false) (hplace : choice x.place y.place = z.place) : op x y = z := by
  apply place_injective
  rw [h.place hx hy, hplace]

theorem comm (h : PlacedBy choice op) (hchoice : ∀ a b, choice a b = choice b a)
    (x y : Binary64) : op x y = op y x := by
  by_cases hnan : x.isNan = true ∨ y.isNan = true
  · rw [h.nan hnan, h.nan hnan.symm]
  · rw [not_or, Bool.not_eq_true, Bool.not_eq_true] at hnan
    apply h.eq_of_place hnan.1 hnan.2
    rw [h.place hnan.2 hnan.1, hchoice]

/-- The canonical NaN is a NaN, so it is passed on by the outer operation. -/
theorem assoc (h : PlacedBy choice op)
    (hchoice : ∀ a b c, choice (choice a b) c = choice a (choice b c))
    (x y z : Binary64) : op (op x y) z = op x (op y z) := by
  cases hx : x.isNan with
  | true => rw [h.nan (Or.inl hx), h.nan (Or.inl hx), h.nan (Or.inl isNan_nan)]
  | false =>
      cases hy : y.isNan with
      | true =>
          rw [h.nan (Or.inr hy), h.nan (Or.inl hy), h.nan (Or.inl isNan_nan),
            h.nan (Or.inr isNan_nan)]
      | false =>
          cases hz : z.isNan with
          | true => rw [h.nan (Or.inr hz), h.nan (Or.inr hz), h.nan (Or.inr isNan_nan)]
          | false =>
              apply h.eq_of_place (h.isNan hx hy) hz
              rw [h.place hx hy, h.place hx (h.isNan hy hz), h.place hy hz, hchoice]

end PlacedBy

/-- Two operations are the meet and the join of the chain of values that are not
NaNs, and any NaN makes their result the canonical one. -/
structure MeetAndJoin (meet join : Binary64 → Binary64 → Binary64) : Prop where
  nan : ∀ x y, x.isNan = true ∨ y.isNan = true → meet x y = nan ∧ join x y = nan
  total : ∀ x y, x.isNan = false → y.isNan = false → AtMost x y ∨ AtMost y x
  select : ∀ x y, x.isNan = false → y.isNan = false → AtMost x y →
    meet x y = x ∧ join x y = y
  comm : ∀ x y, meet x y = meet y x ∧ join x y = join y x
  assoc : ∀ x y z, meet (meet x y) z = meet x (meet y z) ∧
    join (join x y) z = join x (join y z)
  idem : ∀ x, x.isNan = false → meet x x = x ∧ join x x = x
  absorb : ∀ x y, x.isNan = false → y.isNan = false →
    meet x (join x y) = x ∧ join x (meet x y) = x
  dual : ∀ x y, x.isNan = false → y.isNan = false →
    meet x y = (join x.neg y.neg).neg

/-- All laws but those of NaNs are laws of the places. -/
theorem meetAndJoin_min_max : MeetAndJoin min max where
  nan x y h := ⟨min_of_isNan h, max_of_isNan h⟩
  total x y hx hy := by
    rw [atMost_iff hx hy, atMost_iff hy hx]
    exact le_total _ _
  select x y hx hy h := by
    rw [atMost_iff hx hy] at h
    exact ⟨placedBy_min.eq_of_place hx hy (min_eq_left h),
      placedBy_max.eq_of_place hx hy (max_eq_right h)⟩
  comm x y := ⟨placedBy_min.comm min_comm x y, placedBy_max.comm max_comm x y⟩
  assoc x y z := ⟨placedBy_min.assoc min_assoc x y z, placedBy_max.assoc max_assoc x y z⟩
  idem x hx :=
    ⟨placedBy_min.eq_of_place hx hx (min_self _), placedBy_max.eq_of_place hx hx (max_self _)⟩
  absorb x y hx hy := by
    constructor
    · apply placedBy_min.eq_of_place hx (placedBy_max.isNan hx hy)
      rw [placedBy_max.place hx hy, min_eq_left (le_max_left _ _)]
    · apply placedBy_max.eq_of_place hx (placedBy_min.isNan hx hy)
      rw [placedBy_min.place hx hy, max_eq_left (min_le_left _ _)]
  dual x y hx hy := by
    apply placedBy_min.eq_of_place hx hy
    rw [place_neg, placedBy_max.place (by rwa [isNan_neg]) (by rwa [isNan_neg]),
      place_neg, place_neg]
    omega

end WasmFloat.Binary64
