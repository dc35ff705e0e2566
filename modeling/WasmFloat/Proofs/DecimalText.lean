import WasmFloat.Decimal.Layout
import WasmFloat.Proofs.DecimalRounding
import WasmFloat.Proofs.DigitText

namespace WasmFloat

namespace Decimal

open Digits (spell)

structure Mantissa (text : List Char) (integer fraction : List ℕ) (q : ℚ) :
    Prop where
  written : ∃ integerText fractionText,
    text = integerText ++ fractionText ∧
      Digits.Run 10 integerText integer ∧
      Numeral.FractionWritten Digits.Run 10 fractionText fraction
  value : q = Digits.toNat 10 (integer ++ fraction) *
    (10 : ℚ) ^ (-(fraction.length : ℤ))

theorem Mantissa.absent {text : List Char} {integer fraction : List ℕ} {q : ℚ}
    (h : Mantissa text integer fraction q) :
    Numeral.Written Digits.Run .decimal text ⟨integer, fraction, Exponent.absent⟩ ∧
      Numeral.value ⟨integer, fraction, Exponent.absent⟩ 10 10 = q := by
  obtain ⟨⟨integerText, fractionText, rfl, hinteger, hfraction⟩, hvalue⟩ := h
  refine ⟨⟨integerText, fractionText, [], by rw [List.append_nil], hinteger, hfraction,
    Numeral.ExponentWritten.absent⟩, ?_⟩
  have hzero : Exponent.absent.toInt = 0 := rfl
  rw [hvalue, Numeral.value, hzero, zpow_zero, mul_one]
  rfl

theorem Mantissa.marked {text exponentText : List Char}
    {integer fraction : List ℕ} {q : ℚ} {exponent : Exponent}
    (h : Mantissa text integer fraction q)
    (hexponent : Exponent.Written Digits.Run exponentText exponent) :
    Numeral.Written Digits.Run .decimal (text ++ 'e' :: exponentText)
        ⟨integer, fraction, exponent⟩ ∧
      Numeral.value ⟨integer, fraction, exponent⟩ 10 10 = q * 10 ^ exponent.toInt := by
  obtain ⟨⟨integerText, fractionText, rfl, hinteger, hfraction⟩, hvalue⟩ := h
  refine ⟨⟨integerText, fractionText, 'e' :: exponentText, List.append_assoc _ _ _,
    hinteger, hfraction, Numeral.ExponentWritten.marked rfl hexponent⟩, ?_⟩
  rw [hvalue]
  rfl

theorem Mantissa.unmarked {text : List Char} {integer fraction : List ℕ} {q : ℚ}
    (h : Mantissa text integer fraction q) :
    ∀ c ∈ text, NumeralStyle.decimal.marker c = false := by
  obtain ⟨⟨integerText, fractionText, rfl, hinteger, hfraction⟩, -⟩ := h
  intro c hmem
  apply Numeral.marker_eq_false NumeralStyle.decimal_unambiguous
  rcases List.mem_append.mp hmem with hmem | hmem
  · exact Or.inr (hinteger.mem c hmem)
  · exact hfraction.mem c hmem

/-- Digits with a point and a fraction if there is more, which does not end in a zero. -/
structure Pointed (text : List Char) (integer fraction : List ℕ) : Prop where
  text_eq : text =
    if fraction = [] then spell integer else spell integer ++ '.' :: spell fraction
  last : fraction.getLast? ≠ some 0

/-- A numeral without an exponent whose first digit other than zero stands at ten to
the power of `e`. Below one a single zero is before the point. -/
structure IsPositional (e : ℤ) (text : List Char) (numeral : Numeral) : Prop where
  pointed : Pointed text numeral.integer numeral.fraction
  unmarked : ∀ c ∈ text, NumeralStyle.decimal.marker c = false
  integer : if e < 0 then numeral.integer = [0] else numeral.integer.head? ≠ some 0

/-- A numeral with the exponent `e` and one digit before its point, which is not
zero. -/
structure IsScientific (e : ℤ) (text : List Char) (numeral : Numeral) : Prop where
  marked : ∃ mantissa, text = mantissa ++ 'e' :: Digits.signedText e ∧
    Pointed mantissa numeral.integer numeral.fraction
  integer : ∃ digit, digit ≠ 0 ∧ numeral.integer = [digit]

theorem withFraction_spell {integer fraction : List ℕ} (hne : integer ≠ [])
    (hdigits : ∀ digit ∈ integer ++ fraction, digit < 10) :
    ∃ front,
      Pointed (withFraction (spell integer) (Digits.dropTrailingZeros (spell fraction)))
        integer front ∧
      Mantissa (withFraction (spell integer) (Digits.dropTrailingZeros (spell fraction)))
        integer front (Digits.toNat 10 (integer ++ fraction) *
          (10 : ℚ) ^ (-(fraction.length : ℤ))) := by
  obtain ⟨front, count, rfl, hdrop, hlast⟩ := Digits.dropTrailingZeros_spell fraction
  have hinteger : Digits.Run 10 (spell integer) integer :=
    Digits.run_spell hne fun digit hmem => hdigits digit (List.mem_append_left _ hmem)
  have hfront : ∀ digit ∈ front, digit < 10 := by
    intro digit hmem
    exact hdigits digit (List.mem_append_right _ (List.mem_append_left _ hmem))
  refine ⟨front, ⟨?_, hlast⟩, ⟨?_, ?_⟩⟩
  · rw [hdrop]
    cases front <;> rfl
  · rw [hdrop]
    cases front with
    | nil => exact ⟨spell integer, [], by rw [List.append_nil]; rfl, hinteger,
        Numeral.FractionWritten.absent⟩
    | cons digit digits => exact ⟨spell integer, '.' :: spell (digit :: digits), rfl,
        hinteger, Numeral.FractionWritten.digits
          (Digits.run_spell (List.cons_ne_nil _ _) hfront)⟩
  · rw [← List.append_assoc, List.length_append, List.length_replicate]
    exact Digits.toNat_append_zeros (show 0 < 10 by decide) (integer ++ front)
      front.length count

theorem split_spell {digits : List ℕ} {places : ℕ}
    (hlength : places + 1 ≤ digits.length) (hdigits : ∀ digit ∈ digits, digit < 10) :
    ∃ text fraction,
      withFraction ((spell digits).take (digits.length - places))
        (Digits.dropTrailingZeros ((spell digits).drop (digits.length - places))) = text ∧
      Pointed text (digits.take (digits.length - places)) fraction ∧
      Mantissa text (digits.take (digits.length - places)) fraction
        (Digits.toNat 10 digits * (10 : ℚ) ^ (-(places : ℤ))) := by
  have hsplit : digits.take (digits.length - places) ++
      digits.drop (digits.length - places) = digits := List.take_append_drop _ digits
  have hfirst : digits.take (digits.length - places) ≠ [] := by
    intro hnil
    have hzero := congrArg List.length hnil
    rw [List.length_take, List.length_nil] at hzero
    omega
  obtain ⟨front, hpointed, hmantissa⟩ :=
    withFraction_spell hfirst (by rw [hsplit]; exact hdigits)
  rw [hsplit, List.length_drop, Nat.sub_sub_self (by omega)] at hmantissa
  refine ⟨_, front, rfl, ?_⟩
  simp only [spell, List.map_take, List.map_drop] at hpointed hmantissa ⊢
  exact ⟨hpointed, hmantissa⟩

theorem signedText_written (n : ℤ) :
    ∃ exponent, Exponent.Written Digits.Run (Digits.signedText n) exponent ∧
      exponent.toInt = n := by
  obtain ⟨digits, htext, hne, hdigits, hvalue⟩ :=
    Digits.exists_text (show 1 < 10 by decide) n.natAbs
  have hrun := Digits.run_spell hne hdigits
  rw [← htext] at hrun
  rcases lt_or_ge n 0 with hneg | hnonneg
  · refine ⟨⟨true, digits⟩, ?_, ?_⟩
    · rw [Digits.signedText, if_pos hneg]
      exact Exponent.Written.minus hrun
    · rw [Exponent.toInt, Exponent.signed, if_pos rfl, hvalue]
      omega
  · refine ⟨⟨false, digits⟩, ?_, ?_⟩
    · rw [Digits.signedText, if_neg (by omega)]
      exact Exponent.Written.unsigned hrun
    · rw [Exponent.toInt, Exponent.signed, if_neg Bool.false_ne_true, hvalue]
      omega

theorem scientific_written (number : Decimal) :
    ∃ numeral, Numeral.Written Digits.Run .decimal number.scientific numeral ∧
      numeral.value 10 10 = number.value ∧
      (number.coefficient ≠ 0 →
        IsScientific number.leadingExponent number.scientific numeral) := by
  obtain ⟨digits, htext, hne, hdigits, hvalue⟩ :=
    Digits.exists_text (show 1 < 10 by decide) number.coefficient
  have hlength := List.length_pos_iff.mpr hne
  obtain ⟨mantissa, fraction, hscientific, hpointed, hmantissa⟩ :=
    split_spell (show digits.length - 1 + 1 ≤ digits.length by omega) hdigits
  rw [Nat.sub_sub_self (by omega)] at hscientific hpointed hmantissa
  obtain ⟨exponent, hexponent, hsize⟩ := signedText_written number.leadingExponent
  obtain ⟨hwritten, hnumeral⟩ := hmantissa.marked hexponent
  rw [scientific, htext, hscientific]
  refine ⟨_, hwritten, ?_, fun hzero => ⟨⟨mantissa, rfl, hpointed⟩, ?_⟩⟩
  · rw [hnumeral, hvalue, hsize, value, mul_assoc, ← zpow_add₀ (by decide)]
    congr 2
    rw [leadingExponent, htext, spell, List.length_map]
    omega
  · have hhead := Digits.head?_of_text htext hdigits hvalue hzero
    obtain ⟨digit, rest, rfl⟩ := List.exists_cons_of_ne_nil hne
    rw [List.head?_cons, Ne, Option.some.injEq] at hhead
    exact ⟨digit, hhead, rfl⟩

/-- With zeros for every place the digits begin at the first one that is not zero, or
else at the only one before the point. -/
theorem take_padded {digits : List ℕ} (hne : digits ≠ []) (hhead : digits.head? ≠ some 0)
    (exponent : ℤ) {padded : List ℕ} (hpadded : padded = Digits.padded
      ((-exponent).toNat + 1 - digits.length) exponent.toNat digits) :
    if (digits.length : ℤ) - 1 + exponent < 0 then
      padded.take (padded.length - (-exponent).toNat) = [0]
    else (padded.take (padded.length - (-exponent).toNat)).head? ≠ some 0 := by
  have hlength := congrArg List.length hpadded
  rw [Digits.length_padded] at hlength
  have hpos := List.length_pos_iff.mpr hne
  split
  · obtain ⟨front, hfront⟩ : ∃ front, (-exponent).toNat + 1 - digits.length = front + 1 :=
      ⟨(-exponent).toNat - digits.length, by omega⟩
    rw [show padded.length - (-exponent).toNat = 1 by omega, hpadded, hfront]
    rfl
  · obtain ⟨count, hcount⟩ : ∃ count, padded.length - (-exponent).toNat = count + 1 :=
      ⟨padded.length - (-exponent).toNat - 1, by omega⟩
    rw [hcount, hpadded, show (-exponent).toNat + 1 - digits.length = 0 by omega]
    obtain ⟨digit, rest, rfl⟩ := List.exists_cons_of_ne_nil hne
    exact hhead

theorem positional_written (number : Decimal) :
    ∃ numeral, Numeral.Written Digits.Run .decimal number.positional numeral ∧
      numeral.value 10 10 = number.value ∧
      (number.coefficient ≠ 0 →
        IsPositional number.leadingExponent number.positional numeral) := by
  obtain ⟨digits, htext, hne, hdigits, hvalue⟩ :=
    Digits.exists_text (show 1 < 10 by decide) number.coefficient
  -- Enough zeros for a digit before the point and for every place.
  obtain ⟨padded, hpadded⟩ : ∃ padded, padded = Digits.padded
      ((-number.exponent).toNat + 1 - digits.length) number.exponent.toNat digits :=
    ⟨_, rfl⟩
  have hlength : (-number.exponent).toNat + 1 ≤ padded.length := by
    rw [hpadded, Digits.length_padded]
    omega
  have hsmall : ∀ digit ∈ padded, digit < 10 := by
    rw [hpadded]
    exact Digits.padded_lt (by decide) _ _ hdigits
  have hcoefficient : Digits.toNat 10 padded =
      number.coefficient * 10 ^ number.exponent.toNat := by
    rw [hpadded, Digits.toNat_padded, hvalue]
  have hpositional : number.positional =
      withFraction ((spell padded).take (padded.length - (-number.exponent).toNat))
        (Digits.dropTrailingZeros
          ((spell padded).drop (padded.length - (-number.exponent).toNat))) := by
    rw [← show (spell padded).length = padded.length from List.length_map _, hpadded,
      Digits.spell_padded, positional, htext]
    simp only [spell, List.length_map]
  obtain ⟨text, fraction, hsplit, hpointed, hmantissa⟩ := split_spell hlength hsmall
  obtain ⟨hwritten, hnumeral⟩ := hmantissa.absent
  rw [hpositional, hsplit]
  refine ⟨_, hwritten, ?_, fun hzero => ⟨hpointed, hmantissa.unmarked, ?_⟩⟩
  · rw [hnumeral, hcoefficient, Nat.cast_mul, Nat.cast_pow, Nat.cast_ofNat, mul_assoc,
      ← zpow_natCast, ← zpow_add₀ (by decide), value]
    congr 2
    omega
  · have hhead := Digits.head?_of_text htext hdigits hvalue hzero
    rw [leadingExponent, htext, spell, List.length_map]
    exact take_padded hne hhead number.exponent hpadded

theorem layOut_of_ne_zero (layout : DecimalLayout) {number : Decimal}
    (hne : number.coefficient ≠ 0) :
    ∃ numeral, Numeral.Written Digits.Run .decimal (number.layOut layout) numeral ∧
      numeral.value 10 10 = number.value ∧
      if layout.positionalFrom ≤ number.leadingExponent ∧
          number.leadingExponent < layout.positionalBelow then
        IsPositional number.leadingExponent (number.layOut layout) numeral
      else IsScientific number.leadingExponent (number.layOut layout) numeral := by
  rw [layOut, if_neg hne]
  split
  · obtain ⟨numeral, hwritten, hvalue, hshape⟩ := number.positional_written
    exact ⟨numeral, hwritten, hvalue, hshape hne⟩
  · obtain ⟨numeral, hwritten, hvalue, hshape⟩ := number.scientific_written
    exact ⟨numeral, hwritten, hvalue, hshape hne⟩

theorem layOut_written (layout : DecimalLayout) (number : Decimal) :
    ∃ numeral, Numeral.Written Digits.Run .decimal (number.layOut layout) numeral ∧
      numeral.value 10 10 = number.value := by
  by_cases hzero : number.coefficient = 0
  · have hzeroRun : Digits.Run 10 (spell [0]) [0] :=
      Digits.run_spell (List.cons_ne_nil _ _) (by decide)
    rw [layOut, if_pos hzero]
    refine ⟨⟨[0], [], Exponent.absent⟩, ⟨['0'], [], [], rfl, hzeroRun,
      Numeral.FractionWritten.absent, Numeral.ExponentWritten.absent⟩, ?_⟩
    rw [value, hzero, Numeral.value, Numeral.coefficient]
    simp [Digits.toNat]
  · obtain ⟨numeral, hwritten, hvalue, -⟩ := layOut_of_ne_zero layout hzero
    exact ⟨numeral, hwritten, hvalue⟩

end Decimal

end WasmFloat
