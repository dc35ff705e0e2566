import WasmFloat.Proofs.Packing
import WasmFloat.Proofs.Values

namespace WasmFloat

namespace Hexadecimal

/-- The digits of a numeral bound its size, but for the exponent, from both
sides. -/
theorem size_lt {coefficient integer fraction : ℕ}
    (h : coefficient < 16 ^ (integer + fraction)) :
    (coefficient : ℚ) * 16 ^ (-(fraction : ℤ)) < 2 ^ (4 * (integer : ℤ)) := by
  have hpos : (0 : ℚ) < 16 ^ (-(fraction : ℤ)) := zpow_pos (by decide) _
  have hcast : (coefficient : ℚ) < 16 ^ ((integer : ℤ) + fraction) := by
    rw [← Nat.cast_add, zpow_natCast]
    exact_mod_cast h
  have hscale := mul_lt_mul_of_pos_right hcast hpos
  rw [← zpow_add₀ (by decide), add_neg_cancel_right] at hscale
  rw [← Window.sixteen_zpow]
  exact hscale

theorem le_size {coefficient : ℕ} (fraction : ℕ) (h : 0 < coefficient) :
    (2 : ℚ) ^ (-4 * (fraction : ℤ)) ≤ coefficient * 16 ^ (-(fraction : ℤ)) := by
  have hpos : (0 : ℚ) < 16 ^ (-(fraction : ℤ)) := zpow_pos (by decide) _
  have hone : (1 : ℚ) ≤ coefficient := by exact_mod_cast h
  rw [neg_mul, ← mul_neg, ← Window.sixteen_zpow]
  exact le_mul_of_one_le_left hpos.le hone

/-- The cut exponent gives the same value, as long as the digits do not move the point
as far as the cut. -/
theorem ofFinite?_clamped {coefficient integer fraction : ℕ}
    (hcoefficient : coefficient < 16 ^ (integer + fraction))
    (hinteger : integer ≤ 2 ^ 30 - 269) (hfraction : fraction ≤ 2 ^ 30 - 256)
    (exponent : Exponent) :
    Binary64.ofFinite? (Binary64.nearestMagnitude
        (coefficient * 16 ^ (-(fraction : ℤ)) * 2 ^ exponent.clamped)) =
      Binary64.ofFinite? (Binary64.nearestMagnitude
        (coefficient * 16 ^ (-(fraction : ℤ)) * 2 ^ exponent.toInt)) := by
  have hbound : (Exponent.bound : ℤ) = 4294967296 := rfl
  have hlt := size_lt hcoefficient
  -- A digit moves the point by four places, and the cut is at `2 ^ 32`.
  rcases exponent.clamped_cases with heq | ⟨hcut, hexact⟩ | ⟨hcut, hexact⟩
  · rw [heq]
  · rcases Nat.eq_zero_or_pos coefficient with rfl | hpos
    · rw [Nat.cast_zero, zero_mul, zero_mul, zero_mul]
    · have hle := le_size fraction hpos
      have hlarge : ∀ e : ℤ, (Exponent.bound : ℤ) ≤ e →
          (2 : ℚ) ^ (1024 : ℤ) ≤ coefficient * 16 ^ (-(fraction : ℤ)) * 2 ^ e := by
        intro e he
        have hscale := mul_le_mul_of_nonneg_right hle
          (zpow_pos (show (0 : ℚ) < 2 by decide) e).le
        rw [← zpow_add₀ (by decide)] at hscale
        exact (zpow_le_zpow_right₀ (by decide) (by omega)).trans hscale
      rw [Binary64.ofFinite?_of_large (hlarge _ hcut),
        Binary64.ofFinite?_of_large (hlarge _ hexact)]
  · have hnonneg : (0 : ℚ) ≤ coefficient * 16 ^ (-(fraction : ℤ)) :=
      mul_nonneg (Nat.cast_nonneg _) (zpow_pos (by decide) _).le
    have hpower : ∀ e : ℤ, (0 : ℚ) ≤ 2 ^ e := fun e => (zpow_pos (by decide) e).le
    have hsmall : ∀ e : ℤ, e ≤ -(Exponent.bound : ℤ) →
        coefficient * 16 ^ (-(fraction : ℤ)) * 2 ^ e ≤ (2 : ℚ) ^ (-1075 : ℤ) := by
      intro e he
      have hscale := mul_le_mul_of_nonneg_right hlt.le (hpower e)
      rw [← zpow_add₀ (by decide)] at hscale
      exact hscale.trans (zpow_le_zpow_right₀ (by decide) (by omega))
    rw [Binary64.ofFinite?_of_small (mul_nonneg hnonneg (hpower _)) (hsmall _ hcut),
      Binary64.ofFinite?_of_small (mul_nonneg hnonneg (hpower _)) (hsmall _ hexact)]

def nearestUncut? (numeral : Numeral) : Option Binary64 :=
  ((Window.ofDigits numeral.integer numeral.fraction).scale numeral.exponent.toInt).pack?.map
    Binary64.mk

section

variable {numeral : Numeral}
  (hdigits : ∀ digit ∈ numeral.integer ++ numeral.fraction, digit < 16)

include hdigits

theorem pack?_scale (exponent : ℤ) :
    ((Window.ofDigits numeral.integer numeral.fraction).scale exponent).pack?.map
        Binary64.mk =
      Binary64.ofFinite? (Binary64.nearestMagnitude
        (numeral.coefficient 16 * 16 ^ (-(numeral.fraction.length : ℤ)) * 2 ^ exponent)) := by
  obtain ⟨dropped, hgathers⟩ := Window.gathers_ofDigits
    (fun digit hmem => hdigits digit (List.mem_append_left _ hmem))
    (fun digit hmem => hdigits digit (List.mem_append_right _ hmem))
  apply (hgathers.represents.scale exponent).pack?
  exact mul_nonneg (mul_nonneg (Nat.cast_nonneg _) (zpow_pos (by decide) _).le)
    (zpow_pos (by decide) _).le

theorem nearestUncut?_eq : nearestUncut? numeral =
    Binary64.ofFinite? (Binary64.nearestMagnitude (numeral.value 16 2)) :=
  pack?_scale hdigits numeral.exponent.toInt

theorem nearest?_eq_nearestUncut? (hinteger : numeral.integer.length ≤ 2 ^ 30 - 269)
    (hfraction : numeral.fraction.length ≤ 2 ^ 30 - 256) :
    nearest? numeral = nearestUncut? numeral := by
  have hcoefficient := Digits.toNat_lt hdigits
  rw [List.length_append] at hcoefficient
  calc nearest? numeral
      = Binary64.ofFinite? (Binary64.nearestMagnitude
          (numeral.coefficient 16 * 16 ^ (-(numeral.fraction.length : ℤ)) *
            2 ^ numeral.exponent.clamped)) := pack?_scale hdigits _
    _ = Binary64.ofFinite? (Binary64.nearestMagnitude
          (numeral.coefficient 16 * 16 ^ (-(numeral.fraction.length : ℤ)) *
            2 ^ numeral.exponent.toInt)) :=
        ofFinite?_clamped hcoefficient hinteger hfraction numeral.exponent
    _ = nearestUncut? numeral := (pack?_scale hdigits _).symm

theorem nearest?_eq
    (hlength : numeral.integer.length + numeral.fraction.length ≤ 2 ^ 28) :
    nearest? numeral = Binary64.ofFinite?
      (Binary64.nearestMagnitude (numeral.value 16 2)) := by
  rw [nearest?_eq_nearestUncut? hdigits (by omega) (by omega), nearestUncut?_eq hdigits]

end

end Hexadecimal

namespace Literal

theorem parse_of_hexadecimal_body {literal : String} {negative : Bool}
    {body : List Char} {numeral : Numeral}
    (hsigned : Signed literal.toList negative ('0' :: 'x' :: body))
    (hwritten : Numeral.Written Digits.Run .hexadecimal body numeral)
    (hlength : body.length ≤ 2 ^ 28) :
    parse literal = nearestOutcome literal negative
      (Binary64.ofFinite? (Binary64.nearestMagnitude (numeral.value 16 2))) := by
  rw [parse_of_readNumeral NumeralStyle.hexadecimal_unambiguous hsigned
    (readMagnitude_hexadecimal _ body) hwritten,
    Hexadecimal.nearest?_eq hwritten.digits_lt (hwritten.length_le.trans hlength)]

theorem parse_of_hexadecimal {literal : String} {negative : Bool}
    {body : List Char} {numeral : Numeral}
    (hsigned : Signed literal.toList negative ('0' :: 'x' :: body))
    (hwritten : Numeral.Written Digits.Run .hexadecimal body numeral)
    (hlength : literal.length ≤ 2 ^ 28) :
    parse literal = nearestOutcome literal negative
      (Binary64.ofFinite? (Binary64.nearestMagnitude (numeral.value 16 2))) := by
  have htext := hsigned.length_le
  rw [String.length_toList, List.length_cons, List.length_cons] at htext
  exact parse_of_hexadecimal_body hsigned hwritten (by omega)

/-- A hexadecimal literal is correctly rounded, and nothing but its sign and
its number matters to the value that is read. -/
theorem parse_hexadecimal {literal : String} {negative : Bool}
    {body : List Char} {numeral : Numeral}
    (hsigned : Signed literal.toList negative ('0' :: 'x' :: body))
    (hwritten : Numeral.Written Digits.Run .hexadecimal body numeral)
    (hlength : literal.length ≤ 2 ^ 28) :
    ReadsNearest literal negative (numeral.value 16 2) ∧
      ∀ (other : String) (otherBody : List Char) (otherNumeral : Numeral),
        Signed other.toList negative ('0' :: 'x' :: otherBody) →
        Numeral.Written Digits.Run .hexadecimal otherBody otherNumeral →
        other.length ≤ 2 ^ 28 →
        otherNumeral.value 16 2 = numeral.value 16 2 →
        ∀ x, parse other = .ok x ↔ parse literal = .ok x := by
  have hparse := parse_of_hexadecimal hsigned hwritten hlength
  refine ⟨readsNearest_of_parse (numeral.value_nonneg 16 2) hparse, ?_⟩
  intro other otherBody otherNumeral hotherSigned hotherWritten hotherLength hvalue x
  rw [hparse, parse_of_hexadecimal hotherSigned hotherWritten hotherLength, hvalue]
  exact nearestOutcome_eq_ok_iff other literal negative _ x

/-- The last digit, far below the word, decides what would be a tie. -/
theorem parse_hexadecimal_sticky :
    ReadsNearest "-0x1.0000000000000_80000000001p+0" true
      (Numeral.value ⟨[1], [0, 0, 0, 0, 0, 0, 0, 0, 0, 0, 0, 0, 0, 8, 0, 0, 0, 0, 0,
        0, 0, 0, 0, 1], ⟨false, [0]⟩⟩ 16 2) := by
  have hsigned : Signed "-0x1.0000000000000_80000000001p+0".toList true
      ('0' :: 'x' :: "1.0000000000000_80000000001p+0".toList) :=
    Signed.minus _
  have hwritten : Numeral.Written Digits.Run .hexadecimal
      "1.0000000000000_80000000001p+0".toList
      ⟨[1], [0, 0, 0, 0, 0, 0, 0, 0, 0, 0, 0, 0, 0, 8, 0, 0, 0, 0, 0,
        0, 0, 0, 0, 1], ⟨false, [0]⟩⟩ := by
    rw [← Numeral.read?_eq_some_iff NumeralStyle.hexadecimal_unambiguous]
    rfl
  exact (parse_hexadecimal hsigned hwritten (by decide)).1

end Literal

end WasmFloat
