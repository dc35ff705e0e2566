import WasmFloat.Literal.Presentation
import WasmFloat.Proofs.DecimalText
import WasmFloat.Proofs.HexadecimalText

namespace WasmFloat

namespace Binary64

theorem toNat_payload {x : Binary64} (h : x.isNan = true) :
    (x.abs.bits ^^^ bareNan).toNat + Format.binary64.infinity = x.magnitude ∧
      0 < (x.abs.bits ^^^ bareNan).toNat ∧
      (x.abs.bits ^^^ bareNan).toNat < 2 ^ 52 := by
  have hlt := magnitude_lt x
  rw [isNan_iff] at h
  rw [show Format.binary64.infinity = 2047 * 2 ^ 52 from rfl] at h ⊢
  have hfield : x.magnitude / 2 ^ 52 = 2047 := by omega
  have hlow : (x.abs.bits ^^^ bareNan).toNat % 2 ^ 52 = x.magnitude % 2 ^ 52 := by
    rw [UInt64.toNat_xor, Nat.xor_mod_two_pow,
      show bareNan.toNat % 2 ^ 52 = 0 from rfl, Nat.xor_zero]
    rfl
  have hhigh : (x.abs.bits ^^^ bareNan).toNat / 2 ^ 52 = 0 := by
    rw [UInt64.toNat_xor, Nat.xor_div_two_pow,
      show bareNan.toNat / 2 ^ 52 = 2047 from rfl,
      show x.abs.bits.toNat / 2 ^ 52 = 2047 from hfield]
    rfl
  omega

theorem bareNan_or_payload {x : Binary64} (h : x.isNan = true) :
    (⟨bareNan ||| (x.abs.bits ^^^ bareNan)⟩ : Binary64) = x.abs := by
  obtain ⟨hsum, _, hlt⟩ := toNat_payload h
  apply congrArg Binary64.mk
  rw [← UInt64.toNat_inj, UInt64.toNat_or,
    show bareNan.toNat = 2047 <<< 52 from rfl,
    ← Nat.shiftLeft_add_eq_or_of_lt hlt, Nat.shiftLeft_eq, Nat.add_comm]
  exact hsum

end Binary64

namespace Literal

def SpellsNumber (text : List Char) (n : ℕ) : Prop :=
  ∃ digits, Digits.Run 16 text digits ∧ Digits.toNat 16 digits = n

theorem payloadNumber?_eq_some_iff {text : List Char} {payload : UInt64} :
    payloadNumber? text = some payload ↔ SpellsNumber text payload.toNat := by
  unfold payloadNumber?
  constructor
  · intro h
    obtain ⟨digits, hdigits, hpayload⟩ := Option.bind_eq_some_iff.mp h
    obtain ⟨hfits, heq⟩ := Option.ite_none_right_eq_some.mp hpayload
    refine ⟨digits, (Digits.ofRun?_eq_some_iff (by decide)).mp hdigits, ?_⟩
    rw [← Option.some.inj heq, UInt64.toNat_ofNat_of_lt' hfits]
  · rintro ⟨digits, hdigits, hvalue⟩
    rw [(Digits.ofRun?_eq_some_iff (by decide)).mpr hdigits]
    simp only [Option.bind_eq_bind, Option.bind_some, hvalue]
    rw [if_pos payload.toNat_lt_size, UInt64.ofNat_toNat]

theorem payloadNumber?_text {payload : UInt64} :
    payloadNumber? (Digits.text 16 payload.toNat) = some payload := by
  obtain ⟨digits, htext, hne, hdigits, hvalue⟩ :=
    Digits.exists_text (show 1 < 16 by decide) payload.toNat
  rw [payloadNumber?_eq_some_iff, htext]
  exact ⟨digits, Digits.run_spell hne hdigits, hvalue⟩

theorem readPayload_text {x : Binary64} (h : x.isNan = true) :
    readPayload (Digits.text 16 (x.abs.bits ^^^ Binary64.bareNan).toNat) =
      .ok x.abs := by
  obtain ⟨_, hpos, hlt⟩ := Binary64.toNat_payload h
  have hvalue := Binary64.bareNan_or_payload h
  have hread := @payloadNumber?_text (x.abs.bits ^^^ Binary64.bareNan)
  generalize x.abs.bits ^^^ Binary64.bareNan = payload at hpos hlt hvalue hread ⊢
  have hne : payload ≠ 0 := by
    rintro rfl
    exact absurd hpos (by decide)
  have hexponent : payload &&& Binary64.exponentMask = 0 := by
    rw [← UInt64.toNat_inj, UInt64.toNat_and,
      show Binary64.exponentMask.toNat = (2 ^ 11 - 1) * 2 ^ 52 from rfl,
      Binary64.and_shifted_ones, Nat.div_eq_of_lt hlt]
    rfl
  have hsign : payload &&& Binary64.signMask = 0 := by
    rw [← UInt64.toNat_inj, UInt64.toNat_and,
      show Binary64.signMask.toNat = (2 ^ 1 - 1) * 2 ^ 63 from rfl,
      Binary64.and_shifted_ones, Nat.div_eq_of_lt (by omega)]
    rfl
  unfold readPayload
  rw [hread]
  simp only
  rw [if_neg hne, if_neg (not_not_intro hexponent), if_neg (not_not_intro hsign),
    hvalue]

theorem withSign_abs (x : Binary64) : withSign x.isNegative x.abs = x := by
  rw [← Binary64.ofMagnitude_false]
  exact Binary64.ofMagnitude_fields x

theorem toList_write (finite : Binary64 → List Char) {x : Binary64}
    (h : x.isFinite = true) :
    (String.ofList (write finite x)).toList =
      if x.isNegative then '-' :: finite x.abs else finite x.abs := by
  obtain ⟨hinfinite, hnan⟩ := Binary64.isInfinite_of_isFinite h
  rw [String.toList_ofList, write]
  simp only [Binary64.isNan_abs, Binary64.isInfinite_abs, hinfinite, hnan,
    Bool.false_eq_true, if_false]
  split <;> rfl

section

variable {finite : Binary64 → List Char} {x : Binary64}
  (hhead : x.isFinite = true →
    (finite x.abs).head? ≠ some '+' ∧ (finite x.abs).head? ≠ some '-')
  (hread : x.isFinite = true → ∀ literal,
    readMagnitude literal (finite x.abs) = .ok x.abs)

include hhead hread

theorem exists_write :
    ∃ body, write finite x = (if x.isNegative then ['-'] else []) ++ body ∧
      (body.head? ≠ some '+' ∧ body.head? ≠ some '-') ∧
      ∀ literal, readMagnitude literal body = .ok x.abs := by
  unfold write
  simp only
  refine ⟨_, rfl, ?_⟩
  split
  · rename_i hnan
    rw [Binary64.isNan_abs] at hnan
    refine ⟨⟨nofun, nofun⟩, fun literal => ?_⟩
    exact (readMagnitude_payload literal _).trans (readPayload_text hnan)
  rename_i hnan
  split
  · rename_i hinfinite
    refine ⟨⟨nofun, nofun⟩, fun literal => ?_⟩
    rw [Binary64.isInfinite_iff, Binary64.magnitude_abs] at hinfinite
    rw [← Binary64.ofMagnitude_false, hinfinite]
    rfl
  · rename_i hinfinite
    rw [Binary64.isNan_abs] at hnan
    rw [Binary64.isInfinite_abs] at hinfinite
    have hfinite := Binary64.isFinite_of_not hnan hinfinite
    exact ⟨hhead hfinite, hread hfinite⟩

/-- Writing is undone by reading as soon as it is for the digits of finite
values. -/
theorem parse_write : parse (String.ofList (write finite x)) = .ok x := by
  obtain ⟨body, hwrite, ⟨hplus, hminus⟩, hvalue⟩ := exists_write hhead hread
  have hsigned : Signed (write finite x) x.isNegative body := by
    rw [hwrite]
    cases x.isNegative with
    | false => exact Signed.unsigned hplus hminus
    | true => exact Signed.minus body
  have hliteral : Signed (String.ofList (write finite x)).toList x.isNegative body := by
    rw [String.toList_ofList]
    exact hsigned
  rw [parse_of_signed hliteral, hvalue]
  exact congrArg Except.ok (withSign_abs x)

end

theorem readMagnitude_decimalText {x : Binary64} (h : x.isFinite = true)
    (literal : List Char) :
    readMagnitude literal (decimalText x) = .ok x.abs := by
  obtain ⟨numeral, hwritten, hvalue⟩ :=
    Decimal.layOut_written .literal (Decimal.shortest x.magnitude)
  have hnearest : nearestDecimal? numeral = some x.abs := by
    rw [nearestDecimal?_eq, hvalue, Decimal.ofFinite?_shortest,
      Binary64.ofFinite?_magnitude h]
  rw [decimalText, readMagnitude_of_decimal literal hwritten,
    readNumeral_of_written NumeralStyle.decimal_unambiguous _ _ hwritten, hnearest]

/-- Every bit pattern is recovered from its decimal literal. -/
theorem parse_decimal (bits : UInt64) : parse (decimal ⟨bits⟩) = .ok ⟨bits⟩ := by
  apply parse_write
  · intro _
    obtain ⟨numeral, ⟨integerText, fractionText, exponentText, htext, hinteger, _⟩, _⟩ :=
      Decimal.layOut_written .literal
        (Decimal.shortest (Binary64.mk bits).abs.magnitude)
    rw [decimalText, htext]
    exact hinteger.head_ne (by decide) _
  · intro hfinite literal
    have habs : (Binary64.mk bits).abs.isFinite = true := by
      rw [Binary64.isFinite_iff] at hfinite ⊢
      rw [Binary64.magnitude_abs]
      exact hfinite
    rw [readMagnitude_decimalText habs]
    rw [← Binary64.ofMagnitude_false, Binary64.magnitude_abs,
      Binary64.ofMagnitude_false]

theorem readMagnitude_hexadecimalText {x : Binary64} (h : x.isFinite = true)
    (literal : List Char) :
    readMagnitude literal (hexadecimalText x.abs) = .ok x.abs := by
  obtain ⟨body, numeral, htext, hwritten, hlength, hvalue⟩ :=
    Hexadecimal.text_written x.abs.bits
  have hnearest : Hexadecimal.nearest? numeral = some x.abs := by
    rw [Hexadecimal.nearest?_eq hwritten.digits_lt (by omega), hvalue,
      Binary64.nearestMagnitude_units]
    exact Binary64.ofFinite?_magnitude h
  rw [hexadecimalText, htext, readMagnitude_hexadecimal,
    readNumeral_of_written NumeralStyle.hexadecimal_unambiguous _ _ hwritten, hnearest]

theorem parse_hexadecimal_bits (bits : UInt64) :
    parse (hexadecimal ⟨bits⟩) = .ok ⟨bits⟩ := by
  apply parse_write
  · intro _
    obtain ⟨body, _, htext, _⟩ := Hexadecimal.text_written (Binary64.mk bits).abs.bits
    rw [hexadecimalText, htext]
    exact ⟨by simp, by simp⟩
  · intro hfinite literal
    exact readMagnitude_hexadecimalText hfinite literal

end Literal

end WasmFloat
