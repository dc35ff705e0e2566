import WasmFloat.Proofs.HexadecimalText

/-!
How far the cut of hexadecimal exponents is hidden: from literals whose digits do not move
the point by as much as the cut, and from no more.
-/

namespace WasmFloat

namespace Binary64

theorem nearestMagnitude_two_zpow {e : ℤ} (h : -1022 ≤ e) :
    nearestMagnitude (2 ^ e) = (e + 1022).toNat * Format.binary64.hiddenBit + 2 ^ 52 := by
  have hhidden : Format.binary64.hiddenBit = 2 ^ 52 := rfl
  have hunits : Format.binary64.units
      ((e + 1022).toNat * Format.binary64.hiddenBit + 2 ^ 52) =
        2 ^ 52 * 2 ^ (e + 1022).toNat :=
    Format.binary64.units_add _ (Or.inr hhidden.le) (by rw [hhidden]; decide)
  have hsize : (2 : ℚ) ^ e = (2 ^ 52 * 2 ^ (e + 1022).toNat : ℕ) / 2 ^ 1074 := by
    have hexponent : (52 : ℤ) + (e + 1022).toNat = e + 1074 := by omega
    refine (eq_div_iff (pow_ne_zero _ (by decide))).mpr ?_
    rw [Nat.cast_mul, Nat.cast_pow, Nat.cast_pow, ← zpow_natCast, ← zpow_natCast,
      ← zpow_natCast, ← zpow_add₀ (by decide), ← zpow_add₀ (by decide), Nat.cast_ofNat,
      Nat.cast_ofNat, Nat.cast_ofNat, hexponent]
  rw [hsize, ← hunits, nearestMagnitude_units]

end Binary64

theorem Exponent.clamped_of_large {exponent : Exponent}
    (h : (bound : ℤ) < exponent.toInt) : exponent.clamped = bound := by
  unfold toInt at h
  unfold clamped
  rw [clampedSize_eq]
  unfold signed at h ⊢
  split at h <;> rename_i hsign
  · omega
  · rw [if_neg hsign]
    omega

namespace Hexadecimal

def behindZeros (count : ℕ) (exponent : Exponent) : Numeral :=
  ⟨[0], List.replicate count 0 ++ [1], exponent⟩

theorem behindZeros_lt (count : ℕ) (exponent : Exponent) :
    ∀ digit ∈ (behindZeros count exponent).integer ++ (behindZeros count exponent).fraction,
      digit < 16 := by
  simp only [behindZeros, List.mem_append, List.mem_replicate, List.mem_singleton]
  omega

theorem behindZeros_written (count : ℕ) {exponent : Exponent} (hne : exponent.digits ≠ [])
    (hdigits : ∀ digit ∈ exponent.digits, digit < 10) :
    ∃ body, Numeral.Written Digits.Run .hexadecimal body (behindZeros count exponent) := by
  have hfraction : ∀ digit ∈ List.replicate count 0 ++ [1], digit < 16 := by
    simp only [List.mem_append, List.mem_replicate, List.mem_singleton]
    omega
  refine ⟨_, ['0'], '.' :: Digits.spell (List.replicate count 0 ++ [1]), marked exponent,
    rfl, Digits.Run.single ⟨by decide, Or.inl rfl⟩,
    Numeral.FractionWritten.digits (Digits.run_spell (by simp) hfraction),
    exponentWritten_marked hne hdigits⟩

theorem size_behindZeros (count : ℕ) (exponent : Exponent) (e : ℤ) :
    ((behindZeros count exponent).coefficient 16 : ℚ) *
        16 ^ (-((behindZeros count exponent).fraction.length : ℤ)) * 2 ^ e =
      2 ^ (e - 4 * (count + 1 : ℤ)) := by
  have hcoefficient : (behindZeros count exponent).coefficient 16 = 1 := by
    rw [Numeral.coefficient, behindZeros]
    simp only
    rw [← List.append_assoc, Digits.toNat_concat, Digits.toNat_append, Digits.toNat_zeros,
      Digits.toNat_singleton]
    simp
  have hlength : (behindZeros count exponent).fraction.length = count + 1 := by
    simp [behindZeros]
  rw [hcoefficient, hlength, Nat.cast_one, one_mul, Window.sixteen_zpow,
    ← zpow_add₀ (by decide), Nat.cast_succ]
  congr 1
  ring

theorem pack?_behindZeros (count : ℕ) (exponent : Exponent) (e : ℤ) :
    ((Window.ofDigits (behindZeros count exponent).integer
        (behindZeros count exponent).fraction).scale e).pack?.map Binary64.mk =
      Binary64.ofFinite? (Binary64.nearestMagnitude (2 ^ (e - 4 * (count + 1 : ℤ)))) := by
  rw [← size_behindZeros count exponent]
  exact pack?_scale (behindZeros_lt count exponent) e

/-- Where the cut still leaves a number in range, it is seen unless there is nothing to
cut. -/
theorem nearest?_behindZeros {count : ℕ} {exponent : Exponent}
    (hle : exponent.clamped ≤ exponent.toInt)
    (hlow : -1022 ≤ exponent.clamped - 4 * (count + 1 : ℤ))
    (hhigh : exponent.clamped - 4 * (count + 1 : ℤ) ≤ 1023) :
    nearest? (behindZeros count exponent) = nearestUncut? (behindZeros count exponent) ↔
      exponent.clamped = exponent.toInt := by
  have hinfinity : Format.binary64.infinity = 2047 * 2 ^ 52 := rfl
  have hhidden : Format.binary64.hiddenBit = 2 ^ 52 := rfl
  have hcut : nearest? (behindZeros count exponent) = _ :=
    pack?_behindZeros count exponent exponent.clamped
  have huncut : nearestUncut? (behindZeros count exponent) = _ :=
    pack?_behindZeros count exponent exponent.toInt
  rw [hcut, huncut, Binary64.nearestMagnitude_two_zpow hlow,
    Binary64.nearestMagnitude_two_zpow (by omega), hhidden, eq_comm,
    Binary64.ofFinite?_eq_iff (by omega)]
  omega

end Hexadecimal

namespace Literal

def uncutOutcome (literal : String) (negative : Bool) (numeral : Numeral) :
    Except Fault Binary64 :=
  nearestOutcome literal negative (Hexadecimal.nearestUncut? numeral)

section

variable {literal : String} {negative : Bool} {body : List Char} {numeral : Numeral}
  (hsigned : Signed literal.toList negative ('0' :: 'x' :: body))
  (hwritten : Numeral.Written Digits.Run .hexadecimal body numeral)

include hwritten

theorem uncutOutcome_eq : uncutOutcome literal negative numeral =
    nearestOutcome literal negative
      (Binary64.ofFinite? (Binary64.nearestMagnitude (numeral.value 16 2))) := by
  rw [uncutOutcome, Hexadecimal.nearestUncut?_eq hwritten.digits_lt]

include hsigned

theorem parse_eq_nearestOutcome :
    parse literal = nearestOutcome literal negative (Hexadecimal.nearest? numeral) :=
  parse_of_readNumeral NumeralStyle.hexadecimal_unambiguous hsigned
    (readMagnitude_hexadecimal _ body) hwritten

/-- The cut is hidden as long as the digits before the point and those after it are few
enough. -/
theorem parse_eq_uncutOutcome (hinteger : numeral.integer.length ≤ 2 ^ 30 - 269)
    (hfraction : numeral.fraction.length ≤ 2 ^ 30 - 256) :
    parse literal = uncutOutcome literal negative numeral := by
  rw [parse_eq_nearestOutcome hsigned hwritten, uncutOutcome,
    Hexadecimal.nearest?_eq_nearestUncut? hwritten.digits_lt hinteger hfraction]

end

/-- Every exponent beyond the bound is seen to be cut in some literal, whose zeros after
the point make up for the bound. With one zero less it would be hidden. -/
theorem exists_parse_ne_uncutOutcome {exponent : Exponent} (hne : exponent.digits ≠ [])
    (hdigits : ∀ digit ∈ exponent.digits, digit < 10)
    (hlarge : (Exponent.bound : ℤ) < exponent.toInt) :
    ∃ literal body numeral, Signed literal.toList false ('0' :: 'x' :: body) ∧
      Numeral.Written Digits.Run .hexadecimal body numeral ∧
      numeral.exponent = exponent ∧ numeral.fraction.length = 2 ^ 30 - 255 ∧
      parse literal ≠ uncutOutcome literal false numeral := by
  have hbound : (Exponent.bound : ℤ) = 4294967296 := rfl
  have hclamped := Exponent.clamped_of_large hlarge
  -- The number of zeros stays a name, for nothing to write that many of them out.
  obtain ⟨count, hcount⟩ : ∃ count, count + 1 = 2 ^ 30 - 255 := ⟨2 ^ 30 - 256, by omega⟩
  obtain ⟨body, hwritten⟩ := Hexadecimal.behindZeros_written count hne hdigits
  have hsigned : Signed (String.ofList ('0' :: 'x' :: body)).toList false
      ('0' :: 'x' :: body) := by
    rw [String.toList_ofList]
    exact Signed.unsigned (by simp) (by simp)
  refine ⟨_, body, _, hsigned, hwritten, rfl, ?_, ?_⟩
  · rw [← hcount]
    simp [Hexadecimal.behindZeros]
  · rw [parse_eq_nearestOutcome hsigned hwritten, uncutOutcome, Ne, nearestOutcome_inj,
      Hexadecimal.nearest?_behindZeros (by omega) (by omega) (by omega)]
    omega

/-- The cut is not hidden from literals of every length. -/
theorem not_forall_parse_eq_uncutOutcome :
    ¬ ∀ literal negative body numeral,
      Signed literal.toList negative ('0' :: 'x' :: body) →
        Numeral.Written Digits.Run .hexadecimal body numeral →
          parse literal = uncutOutcome literal negative numeral := by
  intro h
  obtain ⟨literal, body, numeral, hsigned, hwritten, -, -, hne⟩ :=
    exists_parse_ne_uncutOutcome
      (show (Exponent.mk false [4, 2, 9, 4, 9, 6, 7, 2, 9, 7]).digits ≠ [] by simp)
      (by decide) (by decide)
  exact hne (h literal false body numeral hsigned hwritten)

end Literal

end WasmFloat
