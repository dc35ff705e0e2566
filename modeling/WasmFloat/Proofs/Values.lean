import WasmFloat.Proofs.Digits
import WasmFloat.Proofs.Literals
import WasmFloat.Proofs.Nearest

namespace WasmFloat

namespace Exponent

/-- Cutting after each digit amounts to cutting once. -/
theorem clampedSize_eq (digits : List ℕ) :
    clampedSize digits = min (Digits.toNat 10 digits) bound := by
  -- The fold may start anywhere, and cut or not.
  have hstart : ∀ start : ℕ,
      digits.foldl (fun size digit => min (10 * size + digit) bound)
          (min start bound) =
        min (digits.foldl (fun value digit => 10 * value + digit) start) bound := by
    induction digits with
    | nil => exact fun _ => rfl
    | cons digit digits ih =>
        intro start
        rw [List.foldl_cons, List.foldl_cons, ← ih]
        congr 1
        unfold bound
        omega
  exact hstart 0

theorem clampedSize_le (digits : List ℕ) : clampedSize digits ≤ bound := by
  rw [clampedSize_eq]
  exact Nat.min_le_right _ _

theorem natAbs_clamped_le (exponent : Exponent) : exponent.clamped.natAbs ≤ bound := by
  have hle := clampedSize_le exponent.digits
  rw [clamped, signed]
  split <;> omega

/-- The cut leaves an exponent alone or far out. -/
theorem clamped_cases (exponent : Exponent) :
    exponent.clamped = exponent.toInt ∨
      ((bound : ℤ) ≤ exponent.clamped ∧ (bound : ℤ) ≤ exponent.toInt) ∨
      (exponent.clamped ≤ -(bound : ℤ) ∧ exponent.toInt ≤ -(bound : ℤ)) := by
  unfold clamped toInt signed
  rw [clampedSize_eq]
  generalize Digits.toNat 10 exponent.digits = size
  cases exponent.negative with
  | false =>
      rw [if_neg Bool.false_ne_true, if_neg Bool.false_ne_true]
      omega
  | true =>
      rw [if_pos rfl, if_pos rfl]
      omega

theorem Written.digit_lt {text : List Char} {exponent : Exponent}
    (h : Written Digits.Run text exponent) : ∀ digit ∈ exponent.digits, digit < 10 := by
  cases h with
  | unsigned hrun | plus hrun | minus hrun => exact hrun.digit_lt

end Exponent

namespace Numeral

/-- The number of a numeral with digits in a radix, and an exponent that counts
powers of `base`. -/
def value (numeral : Numeral) (radix base : ℕ) : ℚ :=
  numeral.coefficient radix * (radix : ℚ) ^ (-(numeral.fraction.length : ℤ)) *
    (base : ℚ) ^ numeral.exponent.toInt

theorem value_nonneg (numeral : Numeral) (radix base : ℕ) :
    0 ≤ numeral.value radix base := by
  have hradix : (0 : ℚ) ≤ radix := Nat.cast_nonneg radix
  have hbase : (0 : ℚ) ≤ base := Nat.cast_nonneg base
  exact mul_nonneg (mul_nonneg (Nat.cast_nonneg _) (zpow_nonneg hradix _))
    (zpow_nonneg hbase _)

theorem FractionWritten.length_le {radix : ℕ} {text : List Char}
    {digits : List ℕ} (h : FractionWritten Digits.Run radix text digits) :
    digits.length ≤ text.length := by
  cases h with
  | absent => exact Nat.le_refl _
  | point => exact Nat.zero_le _
  | digits hrun => exact Nat.le_succ_of_le hrun.length_le

theorem FractionWritten.digit_lt {radix : ℕ} {text : List Char}
    {digits : List ℕ} (h : FractionWritten Digits.Run radix text digits) :
    ∀ digit ∈ digits, digit < radix := by
  cases h with
  | absent | point => exact fun digit hmem => absurd hmem List.not_mem_nil
  | digits hrun => exact hrun.digit_lt

theorem ExponentWritten.digit_lt {marker : Char → Bool} {text : List Char}
    {exponent : Exponent} (h : ExponentWritten Digits.Run marker text exponent) :
    ∀ digit ∈ exponent.digits, digit < 10 := by
  cases h with
  | absent => exact fun digit hmem => absurd hmem List.not_mem_nil
  | marked _ hwritten => exact hwritten.digit_lt

theorem Written.length_le {style : NumeralStyle} {text : List Char}
    {numeral : Numeral} (h : Written Digits.Run style text numeral) :
    numeral.integer.length + numeral.fraction.length ≤ text.length := by
  obtain ⟨integerText, fractionText, exponentText, rfl, hinteger, hfraction, _⟩ := h
  have hfront := hinteger.length_le
  have hback := hfraction.length_le
  rw [List.length_append, List.length_append]
  omega

theorem Written.digit_lt {style : NumeralStyle} {text : List Char}
    {numeral : Numeral} (h : Written Digits.Run style text numeral) :
    (∀ digit ∈ numeral.integer, digit < style.radix) ∧
      ∀ digit ∈ numeral.fraction, digit < style.radix := by
  obtain ⟨_, _, _, _, hinteger, hfraction, _⟩ := h
  exact ⟨hinteger.digit_lt, hfraction.digit_lt⟩

theorem Written.digits_lt {style : NumeralStyle} {text : List Char}
    {numeral : Numeral} (h : Written Digits.Run style text numeral) :
    ∀ digit ∈ numeral.integer ++ numeral.fraction, digit < style.radix := by
  intro digit hmem
  exact (List.mem_append.mp hmem).elim (h.digit_lt.1 digit) (h.digit_lt.2 digit)

theorem Written.exponent_digit_lt {style : NumeralStyle} {text : List Char}
    {numeral : Numeral} (h : Written Digits.Run style text numeral) :
    ∀ digit ∈ numeral.exponent.digits, digit < 10 := by
  obtain ⟨_, _, _, _, _, _, hexponent⟩ := h
  exact hexponent.digit_lt

end Numeral

namespace Literal

/-- A literal of a sign and a size is out of range from the midpoint above the
largest finite value on, and otherwise read as the value nearest to it. -/
structure ReadsNearest (literal : String) (negative : Bool) (q : ℚ) : Prop where
  outOfRange : parse literal = .error (.outOfRange literal) ↔
    (2 : ℚ) ^ 1024 - 2 ^ 970 ≤ q
  nearest : q < (2 : ℚ) ^ 1024 - 2 ^ 970 →
    ∃ x, parse literal = .ok x ∧ x.isNegative = negative ∧ x.IsNearest q

def nearestOutcome (literal : String) (negative : Bool) :
    Option Binary64 → Except Fault Binary64
  | none => .error (.outOfRange literal)
  | some x => .ok (withSign negative x)

theorem withSign_inj {negative : Bool} {x y : Binary64} :
    withSign negative x = withSign negative y ↔ x = y := by
  cases negative with
  | false => exact Iff.rfl
  | true =>
      constructor
      · intro h
        rw [← Binary64.neg_neg x, ← Binary64.neg_neg y]
        exact congrArg Binary64.neg h
      · exact congrArg Binary64.neg

theorem isNegative_withSign {x : Binary64} (h : x.isNegative = false)
    (negative : Bool) : (withSign negative x).isNegative = negative := by
  cases negative with
  | false => exact h
  | true =>
      rw [withSign, if_pos rfl, Binary64.isNegative_neg, h]
      rfl

theorem nearestOutcome_eq_withSign_iff (literal : String) (negative : Bool)
    (read : Option Binary64) (x : Binary64) :
    nearestOutcome literal negative read = .ok (withSign negative x) ↔
      read = some x := by
  cases read with
  | none => exact ⟨nofun, nofun⟩
  | some y => rw [nearestOutcome, Except.ok.injEq, withSign_inj, Option.some.injEq]

theorem nearestOutcome_inj {literal : String} {negative : Bool}
    {read other : Option Binary64} :
    nearestOutcome literal negative read = nearestOutcome literal negative other ↔
      read = other := by
  cases other with
  | some x => exact nearestOutcome_eq_withSign_iff literal negative read x
  | none =>
      cases read with
      | none => exact iff_of_true rfl rfl
      | some y => exact iff_of_false nofun nofun

theorem readsNearest_of_parse {literal : String} {negative : Bool} {q : ℚ}
    (hq : 0 ≤ q)
    (h : parse literal = nearestOutcome literal negative
      (Binary64.ofFinite? (Binary64.nearestMagnitude q))) :
    ReadsNearest literal negative q := by
  refine ⟨?_, fun hsmall => ?_⟩
  · rw [h, ← Binary64.ofFinite?_nearestMagnitude_eq_none_iff hq]
    cases Binary64.ofFinite? (Binary64.nearestMagnitude q) with
    | none => exact iff_of_true rfl rfl
    | some x => exact iff_of_false nofun nofun
  · obtain ⟨x, hx, hsign, hnearest⟩ := Binary64.exists_isNearest hq hsmall
    refine ⟨withSign negative x, by rw [h, hx]; rfl, isNegative_withSign hsign negative, ?_⟩
    cases negative with
    | false => exact hnearest
    | true => exact hnearest.neg

theorem nearestOutcome_eq_ok_iff (literal other : String) (negative : Bool)
    (read : Option Binary64) (x : Binary64) :
    nearestOutcome literal negative read = .ok x ↔
      nearestOutcome other negative read = .ok x := by
  cases read with
  | none => exact ⟨nofun, nofun⟩
  | some y => exact Iff.rfl

theorem parse_of_readNumeral {literal : String} {negative : Bool}
    {style : NumeralStyle} (hstyle : style.Unambiguous)
    {nearest? : Numeral → Option Binary64} {text body : List Char}
    {numeral : Numeral} (hsigned : Signed literal.toList negative text)
    (hread : readMagnitude literal.toList text =
      readNumeral style nearest? literal.toList body)
    (hwritten : Numeral.Written Digits.Run style body numeral) :
    parse literal = nearestOutcome literal negative (nearest? numeral) := by
  rw [parse_of_signed hsigned, hread,
    readNumeral_of_written hstyle nearest? literal.toList hwritten,
    String.ofList_toList]
  cases nearest? numeral with
  | none | some => rfl

end Literal

end WasmFloat
