import WasmFloat.Proofs.DecimalLiterals
import WasmFloat.Proofs.RoundTrip
import WasmFloat.Proofs.Rounded
import WasmFloat.Proofs.Shortest
import WasmFloat.Proofs.Significance

namespace WasmFloat.Literal

open Decimal (IsPositional IsScientific ReadsBack size)

variable {x : Binary64}

def number (negative : Bool) (numeral : Numeral) : ℚ :=
  if negative then -numeral.value 10 10 else numeral.value 10 10

/-- Some decimal literal of this sign and numeral is read as `x`. -/
def ReadFrom (x : Binary64) (negative : Bool) (numeral : Numeral) : Prop :=
  ∃ literal text, Signed literal.toList negative text ∧
    Numeral.Written Digits.Run .decimal text numeral ∧ parse literal = .ok x

/-- The shortest literal of a finite value other than zero, laid out by where its
first digit stands. -/
structure IsShortest (x : Binary64) (literal : String) (text : List Char)
    (numeral : Numeral) : Prop where
  sign : literal.toList = if x.isNegative then '-' :: text else text
  written : Numeral.Written Digits.Run .decimal text numeral
  read : parse literal = .ok x
  fewest : ∀ negative other, ReadFrom x negative other →
    numeral.significant.length ≤ other.significant.length
  closest : ∀ negative other, ReadFrom x negative other →
    other.significant.length = numeral.significant.length →
      |number x.isNegative numeral - x.value| ≤ |number negative other - x.value|
  positional : IsPositional numeral.leadingExponent text numeral ↔
    -7 ≤ numeral.leadingExponent ∧ numeral.leadingExponent < 21
  scientific : ¬ (-7 ≤ numeral.leadingExponent ∧ numeral.leadingExponent < 21) →
    IsScientific numeral.leadingExponent text numeral

theorem abs_number_sub (x : Binary64) (numeral : Numeral) :
    |number x.isNegative numeral - x.value| =
      |numeral.value 10 10 - size x.magnitude| := by
  rw [number, Binary64.value_eq, Binary64.absValue, Binary64.units, ← size]
  cases x.isNegative with
  | false => rfl
  | true =>
      rw [if_pos rfl, if_pos rfl, ← abs_neg]
      congr 1
      ring

/-- A literal is read as `x` only if it has the sign of `x` and is rounded to the
magnitude of `x`. -/
theorem ReadFrom.readsBack {negative : Bool} {numeral : Numeral}
    (h : ReadFrom x negative numeral) :
    negative = x.isNegative ∧ ReadsBack x.magnitude (numeral.value 10 10) := by
  obtain ⟨literal, text, hsigned, hwritten, hparse⟩ := h
  rw [parse_of_decimal hsigned hwritten] at hparse
  cases hread : Binary64.ofFinite? (Binary64.nearestMagnitude (numeral.value 10 10)) with
  | none =>
      rw [hread] at hparse
      exact nomatch hparse
  | some y =>
      rw [hread, nearestOutcome, Except.ok.injEq] at hparse
      obtain ⟨hfinite, rfl⟩ := Binary64.ofFinite?_eq_some_iff.mp hread
      have hword := hfinite.trans Binary64.infinity_lt
      subst hparse
      refine ⟨(isNegative_withSign (Binary64.isNegative_ofMagnitude false hword) _).symm, ?_⟩
      rw [ReadsBack]
      cases negative with
      | false => exact (Binary64.magnitude_ofMagnitude false hword).symm
      | true =>
          rw [withSign, if_pos rfl, Binary64.magnitude_neg,
            Binary64.magnitude_ofMagnitude false hword]

theorem parse_of_readsBack {literal : String} {text : List Char} {numeral : Numeral}
    (hfinite : x.isFinite = true) (hsigned : Signed literal.toList x.isNegative text)
    (hwritten : Numeral.Written Digits.Run .decimal text numeral)
    (hreads : ReadsBack x.magnitude (numeral.value 10 10)) : parse literal = .ok x := by
  rw [ReadsBack] at hreads
  rw [parse_of_decimal hsigned hwritten, hreads, Binary64.ofFinite?_magnitude hfinite,
    nearestOutcome, withSign_abs]

theorem toList_decimal (h : x.isFinite = true) :
    (decimal x).toList =
      if x.isNegative then '-' :: (Decimal.shortest x.magnitude).layOut .literal
      else (Decimal.shortest x.magnitude).layOut .literal := by
  rw [decimal, toList_write decimalText h, decimalText, Binary64.magnitude_abs]

theorem signed_of_toList {literal : String} {text : List Char} {numeral : Numeral}
    (hsign : literal.toList = if x.isNegative then '-' :: text else text)
    (hwritten : Numeral.Written Digits.Run .decimal text numeral) :
    Signed literal.toList x.isNegative text := by
  rw [hsign]
  cases x.isNegative with
  | true => exact Signed.minus text
  | false =>
      obtain ⟨hplus, hminus⟩ := hwritten.head_ne NumeralStyle.decimal_unambiguous
      exact Signed.unsigned hplus hminus

/-- The marker of an exponent tells the two layouts apart. -/
theorem not_isPositional {e : ℤ} {text : List Char} {numeral : Numeral}
    (h : IsScientific e text numeral) : ¬ IsPositional e text numeral := by
  obtain ⟨mantissa, rfl, -⟩ := h.marked
  intro hpositional
  have hmarker := hpositional.unmarked 'e' (List.mem_append_right _ List.mem_cons_self)
  exact absurd hmarker (by decide)

theorem ReadFrom.reduced {negative : Bool} {numeral : Numeral}
    (h : ReadFrom x negative numeral) :
    ReadsBack x.magnitude numeral.reduced.value ∧
      numeral.reduced.coefficient < 10 ^ numeral.significant.length := by
  rw [Numeral.value_reduced]
  refine ⟨h.readsBack.2, ?_⟩
  obtain ⟨literal, text, -, hwritten, -⟩ := h
  exact Numeral.coefficient_reduced_lt hwritten.digits_lt

/-- The decimal literal of a finite value other than zero is shortest, and laid out by
where its first digit stands. -/
theorem decimal_isShortest (x : Binary64) (hfinite : x.isFinite = true)
    (hne : x.isZero = false) :
    ∃ text numeral, IsShortest x (decimal x) text numeral := by
  have hpattern := (Binary64.isFinite_iff x).mp hfinite
  have hpos : 0 < x.magnitude := by
    rw [Nat.pos_iff_ne_zero, Ne, ← Binary64.isZero_iff, hne]
    exact Bool.false_ne_true
  have hcoarsest := Decimal.isCoarsest_shortest hpattern hpos
  have hsign := toList_decimal hfinite
  generalize Decimal.shortest x.magnitude = shortest at hcoarsest hsign
  have hreads := hcoarsest.nearest.reads
  obtain ⟨numeral, hwritten, hvalue, hlayout⟩ := Decimal.layOut_of_ne_zero .literal
    (hreads.coefficient_pos hpos).ne'
  obtain ⟨⟨count, hlength, hlow⟩, hleading⟩ := Numeral.significance
    hwritten.digits_lt hvalue (hreads.pos hpos shortest.value_nonneg).ne'
    (hcoarsest.not_ten_dvd hpos)
  rw [← hleading] at hlayout
  change if -7 ≤ numeral.leadingExponent ∧ numeral.leadingExponent < 21 then _ else _
    at hlayout
  refine ⟨shortest.layOut .literal, numeral, hsign, hwritten, ?_, ?_, ?_, ?_, ?_⟩
  · rw [← hvalue] at hreads
    exact parse_of_readsBack hfinite (signed_of_toList hsign hwritten) hwritten hreads
  · intro negative other hother
    obtain ⟨hreadsOther, hbound⟩ := hother.reduced
    have hpow := (hcoarsest.pow_le hpos hreadsOther hlow).trans_lt hbound
    rw [hlength]
    exact (Nat.pow_lt_pow_iff_right (by decide)).mp hpow
  · intro negative other hother hsame
    obtain ⟨hreadsOther, hbound⟩ := hother.reduced
    rw [hsame, hlength] at hbound
    have hclosest := hcoarsest.closest hpos hreadsOther hlow hbound
    rw [hother.readsBack.1, abs_number_sub, abs_number_sub, hvalue, ← other.value_reduced]
    exact hclosest
  · split at hlayout
    · rename_i hrange
      exact iff_of_true hlayout hrange
    · rename_i hrange
      exact iff_of_false (not_isPositional hlayout) hrange
  · intro hrange
    rwa [if_neg hrange] at hlayout

set_option maxRecDepth 20000 in
/-- The second least value is just below a power of ten, which is its literal. -/
theorem decimal_isShortest_carried :
    (Binary64.mk 2).isFinite = true ∧ (Binary64.mk 2).isZero = false ∧
      ∃ text numeral, IsShortest ⟨2⟩ "1e-323" text numeral := by
  have hdecimal : decimal ⟨2⟩ = "1e-323" := by decide +kernel
  rw [← hdecimal]
  exact ⟨by decide, by decide, decimal_isShortest ⟨2⟩ (by decide) (by decide)⟩

end WasmFloat.Literal
