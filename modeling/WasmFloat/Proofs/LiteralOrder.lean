import WasmFloat.Proofs.DecimalLiterals
import WasmFloat.Proofs.HexadecimalLiterals
import WasmFloat.Proofs.Order

namespace WasmFloat.Literal

open Binary64 (ofFinite? nearestMagnitude)

/-- An unsigned text in either notation and its number. Only a hexadecimal one is
bounded in length. -/
inductive Denotes : List Char → ℚ → Prop
  | decimal {text : List Char} {numeral : Numeral} :
      Numeral.Written Digits.Run .decimal text numeral →
        Denotes text (numeral.value 10 10)
  | hexadecimal {body : List Char} {numeral : Numeral} :
      Numeral.Written Digits.Run .hexadecimal body numeral →
        ('0' :: 'x' :: body).length ≤ 2 ^ 28 →
        Denotes ('0' :: 'x' :: body) (numeral.value 16 2)

theorem Denotes.nonneg {text : List Char} {q : ℚ} (h : Denotes text q) : 0 ≤ q := by
  cases h with
  | decimal => exact Numeral.value_nonneg _ 10 10
  | hexadecimal => exact Numeral.value_nonneg _ 16 2

/-- The notation has no part in what is read. -/
theorem Denotes.parse {literal : String} {negative : Bool} {text : List Char} {q : ℚ}
    (h : Denotes text q) (hsigned : Signed literal.toList negative text) :
    parse literal =
      nearestOutcome literal negative (ofFinite? (nearestMagnitude q)) := by
  cases h with
  | decimal hwritten => exact parse_of_decimal hsigned hwritten
  | hexadecimal hwritten hlength =>
      rw [List.length_cons, List.length_cons] at hlength
      exact parse_of_hexadecimal_body hsigned hwritten (by omega)

/-- What reading gives for two literals under one sign, the first one's number
being no larger: a minus reverses the order. -/
structure InOrder (negative : Bool) (lower upper : String) : Prop where
  ok : ∀ y, parse upper = .ok y → ∃ x, parse lower = .ok x ∧
    if negative then y.le x = true else x.le y = true
  outOfRange : parse lower = .error (.outOfRange lower) →
    parse upper = .error (.outOfRange upper)

/-- Two literals are read as the same bits, or neither is in range. -/
def SameOutcome (literal other : String) : Prop :=
  (∃ x, parse literal = .ok x ∧ parse other = .ok x) ∨
    (parse literal = .error (.outOfRange literal) ∧
      parse other = .error (.outOfRange other))

theorem sameOutcome_of_parse {literal other : String} {negative : Bool}
    {read : Option Binary64} (h : parse literal = nearestOutcome literal negative read)
    (hother : parse other = nearestOutcome other negative read) :
    SameOutcome literal other := by
  cases read with
  | none => exact Or.inr ⟨h, hother⟩
  | some x => exact Or.inl ⟨withSign negative x, h, hother⟩

/-- A larger pattern goes out of range first. -/
theorem inOrder_of_parse {lower upper : String} {negative : Bool}
    {lowerPattern upperPattern : ℕ} (hle : lowerPattern ≤ upperPattern)
    (hlower : parse lower = nearestOutcome lower negative (ofFinite? lowerPattern))
    (hupper : parse upper = nearestOutcome upper negative (ofFinite? upperPattern)) :
    InOrder negative lower upper := by
  rcases Nat.lt_or_ge upperPattern Format.binary64.infinity with hfinite | hinfinite
  · rw [ofFinite?, if_pos hfinite] at hupper
    rw [ofFinite?, if_pos (Nat.lt_of_le_of_lt hle hfinite)] at hlower
    have horder := Binary64.le_ofMagnitude hle hfinite
    refine ⟨fun y hy => ⟨_, hlower, ?_⟩, fun hfault => ?_⟩
    · rw [hupper] at hy
      cases hy
      cases negative with
      | false => exact horder
      | true => exact (Binary64.le_neg_neg _ _).trans horder
    · rw [hlower] at hfault
      cases hfault
  · rw [ofFinite?, if_neg (Nat.not_lt.mpr hinfinite)] at hupper
    refine ⟨fun y hy => ?_, fun _ => hupper⟩
    rw [hupper] at hy
    cases hy

/-- Reading keeps the order of the numbers that literals denote, and nothing of a
literal but its sign and its number matters. -/
theorem parse_inOrder {lower upper : String} {negative : Bool}
    {lowerText upperText : List Char} {p q : ℚ}
    (hlower : Signed lower.toList negative lowerText)
    (hupper : Signed upper.toList negative upperText)
    (hp : Denotes lowerText p) (hq : Denotes upperText q) (hle : p ≤ q) :
    InOrder negative lower upper ∧ (p = q → SameOutcome lower upper) := by
  have hparse := hp.parse hlower
  have hother := hq.parse hupper
  refine ⟨inOrder_of_parse (Binary64.nearestMagnitude_mono hp.nonneg hle) hparse hother, ?_⟩
  rintro rfl
  exact sameOutcome_of_parse hparse hother

/-- Halfway between two values, both notations go to the same one. -/
theorem parse_inOrder_tie :
    InOrder true "-9_007199254740993" "-0x2000000000000.1p4" ∧
      SameOutcome "-9_007199254740993" "-0x2000000000000.1p4" := by
  have hdecimal : Numeral.Written Digits.Run .decimal "9_007199254740993".toList
      ⟨[9, 0, 0, 7, 1, 9, 9, 2, 5, 4, 7, 4, 0, 9, 9, 3], [], Exponent.absent⟩ := by
    rw [← Numeral.read?_eq_some_iff NumeralStyle.decimal_unambiguous]
    rfl
  have hhexadecimal : Numeral.Written Digits.Run .hexadecimal
      "2000000000000.1p4".toList
      ⟨[2, 0, 0, 0, 0, 0, 0, 0, 0, 0, 0, 0, 0], [1], ⟨false, [4]⟩⟩ := by
    rw [← Numeral.read?_eq_some_iff NumeralStyle.hexadecimal_unambiguous]
    rfl
  have hvalue : Numeral.value
      ⟨[9, 0, 0, 7, 1, 9, 9, 2, 5, 4, 7, 4, 0, 9, 9, 3], [], Exponent.absent⟩ 10 10 =
        Numeral.value
          ⟨[2, 0, 0, 0, 0, 0, 0, 0, 0, 0, 0, 0, 0], [1], ⟨false, [4]⟩⟩ 16 2 := by
    norm_num [Numeral.value, Numeral.coefficient, Digits.toNat, Exponent.toInt,
      Exponent.signed, Exponent.absent]
  have hlower : Signed "-9_007199254740993".toList true "9_007199254740993".toList :=
    Signed.minus _
  have hupper : Signed "-0x2000000000000.1p4".toList true
      ('0' :: 'x' :: "2000000000000.1p4".toList) := Signed.minus _
  obtain ⟨horder, hsame⟩ := parse_inOrder hlower hupper (Denotes.decimal hdecimal)
    (Denotes.hexadecimal hhexadecimal (by decide)) hvalue.le
  exact ⟨horder, hsame hvalue⟩

end WasmFloat.Literal
