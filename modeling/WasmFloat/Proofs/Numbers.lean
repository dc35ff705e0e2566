import Mathlib.Order.WithBot
import WasmFloat.Proofs.Order

namespace WasmFloat.Binary64

def number (x : Binary64) : WithBot (WithTop ℚ) :=
  if x.isInfinite then if x.isNegative then ⊥ else ⊤
  else ((x.value : WithTop ℚ) : WithBot (WithTop ℚ))

variable {x y : Binary64}

theorem signedUnits_lt_iff : x.signedUnits < y.signedUnits ↔ x.rank < y.rank := by
  have hlt : x.units < y.units ↔ x.magnitude < y.magnitude :=
    Format.binary64.units_strictMono.lt_iff_lt
  have hgt : y.units < x.units ↔ y.magnitude < x.magnitude :=
    Format.binary64.units_strictMono.lt_iff_lt
  have hx : x.units = 0 ↔ x.magnitude = 0 := by rw [units_eq_zero_iff, isZero_iff]
  have hy : y.units = 0 ↔ y.magnitude = 0 := by rw [units_eq_zero_iff, isZero_iff]
  simp only [signedUnits, rank]
  split <;> split <;> omega

theorem value_lt_iff : x.value < y.value ↔ x.rank < y.rank := by
  have hpos : (0 : ℚ) < 2 ^ 1074 := pow_pos (by decide) _
  rw [value, value, div_lt_div_iff_of_pos_right hpos, Int.cast_lt, signedUnits_lt_iff]

theorem number_cases (h : x.isNan = false) :
    (x.rank = -(Format.binary64.infinity : ℤ) ∧ x.number = ⊥) ∨
      (x.rank = Format.binary64.infinity ∧ x.number = ⊤) ∨
      (-(Format.binary64.infinity : ℤ) < x.rank ∧ x.rank < Format.binary64.infinity ∧
        x.number = ((x.value : WithTop ℚ) : WithBot _)) := by
  by_cases hinfinite : x.isInfinite = true
  · have hmagnitude := (isInfinite_iff x).mp hinfinite
    cases hsign : x.isNegative with
    | true => exact Or.inl (by simp [rank, number, hinfinite, hsign, hmagnitude])
    | false => exact Or.inr (Or.inl (by simp [rank, number, hinfinite, hsign, hmagnitude]))
  · have hfinite := (isFinite_iff x).mp (isFinite_of_not (by simp [h]) hinfinite)
    right
    right
    refine ⟨?_, ?_, by rw [number, if_neg hinfinite]⟩
    all_goals
      rw [rank]
      split <;> omega

theorem number_lt_iff (hx : x.isNan = false) (hy : y.isNan = false) :
    x.number < y.number ↔ x.rank < y.rank := by
  have hends : -(Format.binary64.infinity : ℤ) < Format.binary64.infinity := by decide
  have htop : ∀ q : ℚ, ((q : WithTop ℚ) : WithBot (WithTop ℚ)) < ⊤ :=
    fun q => WithBot.coe_lt_coe.mpr (WithTop.coe_lt_top q)
  rcases number_cases hx with ⟨hrank, hnumber⟩ | ⟨hrank, hnumber⟩ | ⟨hlow, hhigh, hnumber⟩ <;>
    rcases number_cases hy with
      ⟨hrank', hnumber'⟩ | ⟨hrank', hnumber'⟩ | ⟨hlow', hhigh', hnumber'⟩ <;>
    rw [hnumber, hnumber']
  case inr.inr.inr.inr =>
    rw [WithBot.coe_lt_coe, WithTop.coe_lt_coe, value_lt_iff]
  all_goals
    simp only [not_lt_bot, not_top_lt, lt_irrefl, bot_lt_top, WithBot.bot_lt_coe, htop,
      false_iff, true_iff]
    omega

end WasmFloat.Binary64
