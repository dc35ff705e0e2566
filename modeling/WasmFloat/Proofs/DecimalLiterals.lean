import WasmFloat.Proofs.DecimalRounding

namespace WasmFloat.Literal

theorem parse_of_decimal {literal : String} {negative : Bool} {text : List Char}
    {numeral : Numeral} (hsigned : Signed literal.toList negative text)
    (hwritten : Numeral.Written Digits.Run .decimal text numeral) :
    parse literal = nearestOutcome literal negative
      (Binary64.ofFinite? (Binary64.nearestMagnitude (numeral.value 10 10))) := by
  rw [parse_of_readNumeral NumeralStyle.decimal_unambiguous hsigned
    (readMagnitude_of_decimal _ hwritten) hwritten, nearestDecimal?_eq]

theorem Signed.dropSeparators {literal text : List Char} {negative : Bool}
    {style : NumeralStyle} (hstyle : style.Unambiguous) {numeral : Numeral}
    (h : Signed literal negative text)
    (hwritten : Numeral.Written Digits.Run style text numeral) :
    Signed (Digits.dropSeparators literal) negative (Digits.dropSeparators text) := by
  cases h with
  | plus => exact Signed.plus _
  | minus => exact Signed.minus _
  | unsigned =>
      obtain ⟨hplus, hminus⟩ :=
        ((hwritten.plain hstyle).mono Digits.PlainRun.run).head_ne hstyle
      exact Signed.unsigned hplus hminus

theorem parse_dropSeparators {literal : String} {negative : Bool} {text : List Char}
    {numeral : Numeral} (hsigned : Signed literal.toList negative text)
    (hwritten : Numeral.Written Digits.Run .decimal text numeral) (x : Binary64) :
    parse (String.ofList (Digits.dropSeparators literal.toList)) = .ok x ↔
      parse literal = .ok x := by
  have hplain := (hwritten.plain NumeralStyle.decimal_unambiguous).mono
    Digits.PlainRun.run
  have hdropped := hsigned.dropSeparators NumeralStyle.decimal_unambiguous hwritten
  rw [← String.toList_ofList (l := Digits.dropSeparators literal.toList)] at hdropped
  rw [parse_of_decimal hdropped hplain, parse_of_decimal hsigned hwritten]
  exact nearestOutcome_eq_ok_iff _ literal negative _ x

/-- A decimal literal is correctly rounded. It is read as a zero when its number
is at most half of the least positive value, and its separators do not matter. -/
theorem parse_decimal_literal {literal : String} {negative : Bool}
    {text : List Char} {numeral : Numeral}
    (hsigned : Signed literal.toList negative text)
    (hwritten : Numeral.Written Digits.Run .decimal text numeral) :
    ReadsNearest literal negative (numeral.value 10 10) ∧
      (parse literal = .ok (withSign negative Binary64.zero) ↔
        numeral.value 10 10 ≤ (2 : ℚ) ^ (-1075 : ℤ)) ∧
      (∀ other,
        Numeral.Written Digits.PlainRun .decimal (Digits.dropSeparators text) other ↔
          other = numeral) ∧
      ∀ x, parse (String.ofList (Digits.dropSeparators literal.toList)) = .ok x ↔
        parse literal = .ok x := by
  have hparse := parse_of_decimal hsigned hwritten
  have hnonneg := numeral.value_nonneg 10 10
  refine ⟨readsNearest_of_parse hnonneg hparse, ?_,
    hwritten.plain_iff NumeralStyle.decimal_unambiguous,
    parse_dropSeparators hsigned hwritten⟩
  rw [hparse, nearestOutcome_eq_withSign_iff]
  exact Binary64.ofFinite?_eq_zero_iff hnonneg

/-- Just below the midpoint above the largest finite value a literal can still be
read. -/
theorem parse_decimal_literal_largest :
    ∃ x, parse "-1_7976931348623158.07937e2_92" = .ok x ∧ x.isNegative = true ∧
      x.IsNearest (Numeral.value ⟨[1, 7, 9, 7, 6, 9, 3, 1, 3, 4, 8, 6, 2, 3, 1, 5, 8],
        [0, 7, 9, 3, 7], ⟨false, [2, 9, 2]⟩⟩ 10 10) := by
  have hsigned : Signed "-1_7976931348623158.07937e2_92".toList true
      "1_7976931348623158.07937e2_92".toList := Signed.minus _
  have hwritten : Numeral.Written Digits.Run .decimal
      "1_7976931348623158.07937e2_92".toList
      ⟨[1, 7, 9, 7, 6, 9, 3, 1, 3, 4, 8, 6, 2, 3, 1, 5, 8], [0, 7, 9, 3, 7],
        ⟨false, [2, 9, 2]⟩⟩ := by
    rw [← Numeral.read?_eq_some_iff NumeralStyle.decimal_unambiguous]
    rfl
  refine (parse_decimal_literal hsigned hwritten).1.nearest ?_
  have hbelow : 1797693134862315807937 * 10 ^ 287 + 2 ^ 970 < 2 ^ 1024 := by
    decide +kernel
  have hcast : (1797693134862315807937 * 10 ^ 287 + 2 ^ 970 : ℚ) < 2 ^ 1024 := by
    exact_mod_cast hbelow
  have hvalue : Numeral.value ⟨[1, 7, 9, 7, 6, 9, 3, 1, 3, 4, 8, 6, 2, 3, 1, 5, 8],
      [0, 7, 9, 3, 7], ⟨false, [2, 9, 2]⟩⟩ 10 10 =
        1797693134862315807937 * 10 ^ (287 : ℤ) := by
    rw [Numeral.value, mul_assoc, Nat.cast_ofNat, ← zpow_add₀ (by decide)]
    rfl
  rw [hvalue, lt_sub_iff_add_lt]
  exact hcast

end WasmFloat.Literal
