import WasmFloat.Literal.Reader
import WasmFloat.Proofs.Grammar

namespace WasmFloat

/-- The characters of decimal numerals; none of them begins `inf`, `nan` or the
mark of a hexadecimal numeral. -/
theorem Numeral.Written.not_mem_decimal {text : List Char} {numeral : Numeral}
    (h : Numeral.Written Digits.Run .decimal text numeral) {c : Char}
    (hc : c = 'i' ∨ c = 'n' ∨ c = 'x') : c ∉ text := by
  have hnone : Digits.value? 10 c = none := by
    rcases hc with rfl | rfl | rfl <;> decide
  have hdigit : ¬ ∃ digit, Digits.IsDigit 10 c digit := by
    rintro ⟨digit, hdigit⟩
    rw [← Digits.value?_eq_some_iff (by decide), hnone] at hdigit
    exact nomatch hdigit
  obtain ⟨integerText, fractionText, exponentText, rfl, hinteger, hfraction,
    hexponent⟩ := h
  rw [List.mem_append, List.mem_append]
  rintro (hmem | hmem | hmem)
  · rcases hinteger.mem c hmem with rfl | hmem
    · exact absurd hc (by decide)
    · exact hdigit hmem
  · rcases hfraction.mem c hmem with rfl | rfl | hmem
    · exact absurd hc (by decide)
    · exact absurd hc (by decide)
    · exact hdigit hmem
  · rcases hexponent.mem c hmem with hmarker | rfl | rfl | rfl | hmem
    · simp only [NumeralStyle.decimal, Bool.or_eq_true, beq_iff_eq] at hmarker
      rcases hmarker with rfl | rfl <;> exact absurd hc (by decide)
    · exact absurd hc (by decide)
    · exact absurd hc (by decide)
    · exact absurd hc (by decide)
    · exact hdigit hmem

theorem Numeral.Written.ne_nil {style : NumeralStyle} {text : List Char}
    {numeral : Numeral} (h : Numeral.Written Digits.Run style text numeral) :
    text ≠ [] := by
  obtain ⟨integerText, fractionText, exponentText, rfl, hinteger, _, _⟩ := h
  intro hnil
  exact hinteger.ne_nil (List.append_eq_nil_iff.mp hnil).1

namespace Literal

/-- The literal is the text under an optional sign, of which at most one is
taken. -/
inductive Signed : List Char → Bool → List Char → Prop
  | plus (text : List Char) : Signed ('+' :: text) false text
  | minus (text : List Char) : Signed ('-' :: text) true text
  | unsigned {text : List Char} :
      text.head? ≠ some '+' → text.head? ≠ some '-' → Signed text false text

theorem Signed.takeSign {literal text : List Char} {negative : Bool}
    (h : Signed literal negative text) : takeSign literal = (negative, text) := by
  cases h with
  | plus | minus => rfl
  | unsigned hplus hminus =>
      unfold Literal.takeSign
      split
      · exact absurd rfl hminus
      · exact absurd rfl hplus
      · rfl

theorem Signed.length_le {literal text : List Char} {negative : Bool}
    (h : Signed literal negative text) : text.length ≤ literal.length := by
  cases h with
  | plus | minus => exact Nat.le_succ _
  | unsigned => exact Nat.le_refl _

theorem exists_signed (literal : List Char) :
    ∃ negative text, Signed literal negative text := by
  by_cases hplus : literal.head? = some '+'
  · obtain ⟨text, rfl⟩ := List.head?_eq_some_iff.mp hplus
    exact ⟨false, text, Signed.plus text⟩
  · by_cases hminus : literal.head? = some '-'
    · obtain ⟨text, rfl⟩ := List.head?_eq_some_iff.mp hminus
      exact ⟨true, text, Signed.minus text⟩
    · exact ⟨false, literal, Signed.unsigned hplus hminus⟩

def withSign (negative : Bool) (x : Binary64) : Binary64 :=
  if negative then x.neg else x

theorem parse_of_signed {literal : String} {negative : Bool} {text : List Char}
    (h : Signed literal.toList negative text) :
    parse literal =
      (readMagnitude literal.toList text).map (withSign negative) := by
  rw [parse, read, h.takeSign]
  rfl

def payloadLiteral (digits : List Char) : List Char :=
  'n' :: 'a' :: 'n' :: '(' :: '0' :: 'x' :: (digits ++ [')'])

theorem payloadText?_eq_some_iff {text digits : List Char} :
    payloadText? text = some digits ↔ text = payloadLiteral digits := by
  constructor
  · intro h
    unfold payloadText? at h
    split at h
    · rename_i rest
      split at h
      · rename_i hlast
        cases h
        rw [payloadLiteral, List.dropLast_append_getLast? ')' hlast]
      · exact nomatch h
    · exact nomatch h
  · rintro rfl
    rw [payloadLiteral, payloadText?, if_pos (List.getLast?_concat),
      List.dropLast_concat]

theorem payloadText?_eq_none {text : List Char}
    (h : ∀ digits, text ≠ payloadLiteral digits) : payloadText? text = none := by
  rw [Option.eq_none_iff_forall_ne_some]
  intro digits hsome
  exact h digits (payloadText?_eq_some_iff.mp hsome)

theorem readMagnitude_payload (literal digits : List Char) :
    readMagnitude literal (payloadLiteral digits) = readPayload digits := by
  unfold readMagnitude
  rw [payloadText?_eq_some_iff.mpr rfl]

theorem readMagnitude_hexadecimal (literal body : List Char) :
    readMagnitude literal ('0' :: 'x' :: body) =
      readNumeral .hexadecimal Hexadecimal.nearest? literal body := by
  have hpayload : payloadText? ('0' :: 'x' :: body) = none := by
    apply payloadText?_eq_none
    intro digits h
    exact absurd (List.cons.inj h).1 (by decide)
  unfold readMagnitude
  rw [hpayload]
  rfl

theorem readMagnitude_decimal (literal : List Char) {text : List Char}
    (hnil : text ≠ []) (hpayload : ∀ digits, text ≠ payloadLiteral digits)
    (hinf : text ≠ ['i', 'n', 'f']) (hnan : text ≠ ['n', 'a', 'n'])
    (hhexadecimal : ∀ body, text ≠ '0' :: 'x' :: body) :
    readMagnitude literal text =
      readNumeral .decimal nearestDecimal? literal text := by
  unfold readMagnitude
  rw [payloadText?_eq_none hpayload]
  split
  · rename_i hsome
    exact nomatch hsome
  · split
    · exact absurd rfl hnil
    · exact absurd rfl hinf
    · exact absurd rfl hnan
    · exact absurd rfl (hhexadecimal _)
    · rfl

theorem readMagnitude_of_decimal (literal : List Char) {text : List Char}
    {numeral : Numeral} (h : Numeral.Written Digits.Run .decimal text numeral) :
    readMagnitude literal text =
      readNumeral .decimal nearestDecimal? literal text := by
  have hi := h.not_mem_decimal (Or.inl rfl)
  have hn := h.not_mem_decimal (Or.inr (Or.inl rfl))
  have hx := h.not_mem_decimal (Or.inr (Or.inr rfl))
  apply readMagnitude_decimal literal h.ne_nil
  · rintro digits rfl
    exact hn List.mem_cons_self
  · rintro rfl
    exact hi List.mem_cons_self
  · rintro rfl
    exact hn List.mem_cons_self
  · rintro body rfl
    exact hx (List.mem_cons_of_mem _ List.mem_cons_self)

theorem readNumeral_of_written {style : NumeralStyle}
    (hstyle : style.Unambiguous) (nearest? : Numeral → Option Binary64)
    (literal : List Char) {text : List Char} {numeral : Numeral}
    (h : Numeral.Written Digits.Run style text numeral) :
    readNumeral style nearest? literal text =
      match nearest? numeral with
      | none => .error (.outOfRange (String.ofList literal))
      | some x => .ok x := by
  have hread := (Numeral.read?_eq_some_iff hstyle).mpr h
  cases hnearest : nearest? numeral with
  | none => simp only [readNumeral, hread, hnearest]
  | some x => simp only [readNumeral, hread, hnearest]

theorem readNumeral_of_not_written {style : NumeralStyle}
    (hstyle : style.Unambiguous) (nearest? : Numeral → Option Binary64)
    (literal : List Char) {text : List Char}
    (h : ∀ numeral, ¬ Numeral.Written Digits.Run style text numeral) :
    readNumeral style nearest? literal text =
      .error (.malformedLiteral (String.ofList literal)) := by
  have hnone : Numeral.read? style text = none := by
    rw [Option.eq_none_iff_forall_ne_some]
    intro numeral hsome
    exact h numeral ((Numeral.read?_eq_some_iff hstyle).mp hsome)
  unfold readNumeral
  rw [hnone]

theorem readNumeral_outcome {style : NumeralStyle}
    (hstyle : style.Unambiguous) (nearest? : Numeral → Option Binary64)
    (literal text : List Char) :
    ((∃ numeral, Numeral.Written Digits.Run style text numeral) ∧
      ((∃ x, readNumeral style nearest? literal text = .ok x) ∨
        readNumeral style nearest? literal text =
          .error (.outOfRange (String.ofList literal)))) ∨
    ((¬ ∃ numeral, Numeral.Written Digits.Run style text numeral) ∧
      readNumeral style nearest? literal text =
        .error (.malformedLiteral (String.ofList literal))) := by
  by_cases hwritten : ∃ numeral, Numeral.Written Digits.Run style text numeral
  · obtain ⟨numeral, h⟩ := hwritten
    refine Or.inl ⟨⟨numeral, h⟩, ?_⟩
    rw [readNumeral_of_written hstyle nearest? literal h]
    cases nearest? numeral with
    | none => exact Or.inr rfl
    | some x => exact Or.inl ⟨x, rfl⟩
  · refine Or.inr ⟨hwritten, ?_⟩
    exact readNumeral_of_not_written hstyle nearest? literal
      fun numeral h => hwritten ⟨numeral, h⟩

theorem readPayload_error {digits : List Char} {fault : Fault}
    (h : readPayload digits = .error fault) :
    fault = .malformedPayload (String.ofList digits) ∨ fault = .zeroPayload ∨
      fault = .payloadOverlapsExponent ∨ fault = .payloadOverlapsSign := by
  unfold readPayload at h
  split at h
  · cases h
    exact Or.inl rfl
  · split at h
    · cases h
      exact Or.inr (Or.inl rfl)
    · split at h
      · cases h
        exact Or.inr (Or.inr (Or.inl rfl))
      · split at h
        · cases h
          exact Or.inr (Or.inr (Or.inr rfl))
        · exact nomatch h

theorem run_of_readPayload {digits : List Char} {x : Binary64}
    (h : readPayload digits = .ok x) : ∃ values, Digits.Run 16 digits values := by
  unfold readPayload at h
  split at h
  · exact nomatch h
  · rename_i payload hpayload
    unfold payloadNumber? at hpayload
    obtain ⟨values, hvalues, _⟩ := Option.bind_eq_some_iff.mp hpayload
    exact ⟨values, (Digits.ofRun?_eq_some_iff (by decide)).mp hvalues⟩

/-- A decimal numeral, or a hexadecimal one after its mark. -/
def IsNumeral (text : List Char) : Prop :=
  (∃ numeral, Numeral.Written Digits.Run .decimal text numeral) ∨
    ∃ body numeral, text = '0' :: 'x' :: body ∧
      Numeral.Written Digits.Run .hexadecimal body numeral

theorem isNumeral_hexadecimal_iff (body : List Char) :
    IsNumeral ('0' :: 'x' :: body) ↔
      ∃ numeral, Numeral.Written Digits.Run .hexadecimal body numeral := by
  constructor
  · rintro (⟨numeral, h⟩ | ⟨other, numeral, heq, h⟩)
    · exact absurd (List.mem_cons_of_mem _ List.mem_cons_self)
        (h.not_mem_decimal (Or.inr (Or.inr rfl)))
    · cases heq
      exact ⟨numeral, h⟩
  · rintro ⟨numeral, h⟩
    exact Or.inr ⟨body, numeral, rfl, h⟩

theorem isNumeral_iff_decimal {text : List Char}
    (h : ∀ body, text ≠ '0' :: 'x' :: body) :
    IsNumeral text ↔
      ∃ numeral, Numeral.Written Digits.Run .decimal text numeral := by
  constructor
  · rintro (hdecimal | ⟨body, numeral, heq, _⟩)
    · exact hdecimal
    · exact absurd heq (h body)
  · exact Or.inl

def IsOrdinary (text : List Char) : Prop :=
  text ≠ [] ∧ (∀ digits, text ≠ payloadLiteral digits) ∧
    text ≠ ['i', 'n', 'f'] ∧ text ≠ ['n', 'a', 'n']

theorem IsNumeral.isOrdinary {text : List Char} (h : IsNumeral text) :
    IsOrdinary text := by
  rcases h with ⟨numeral, h⟩ | ⟨body, numeral, rfl, h⟩
  · have hi := h.not_mem_decimal (Or.inl rfl)
    have hn := h.not_mem_decimal (Or.inr (Or.inl rfl))
    refine ⟨h.ne_nil, ?_, ?_, ?_⟩
    · rintro digits rfl
      exact hn List.mem_cons_self
    · rintro rfl
      exact hi List.mem_cons_self
    · rintro rfl
      exact hn List.mem_cons_self
  · refine ⟨List.cons_ne_nil _ _, fun digits heq => ?_, by simp, by simp⟩
    exact absurd (List.cons.inj heq).1 (by decide)

theorem readMagnitude_outcome (literal : List Char) {text : List Char}
    (htext : IsOrdinary text) :
    (IsNumeral text ∧ ((∃ x, readMagnitude literal text = .ok x) ∨
      readMagnitude literal text = .error (.outOfRange (String.ofList literal)))) ∨
    (¬ IsNumeral text ∧ readMagnitude literal text =
      .error (.malformedLiteral (String.ofList literal))) := by
  obtain ⟨hnil, hpayload, hinf, hnan⟩ := htext
  by_cases hmark : ∃ body, text = '0' :: 'x' :: body
  · obtain ⟨body, rfl⟩ := hmark
    rw [readMagnitude_hexadecimal, isNumeral_hexadecimal_iff]
    exact readNumeral_outcome NumeralStyle.hexadecimal_unambiguous _ _ _
  · have hdecimal : ∀ body, text ≠ '0' :: 'x' :: body :=
      fun body heq => hmark ⟨body, heq⟩
    rw [readMagnitude_decimal literal hnil hpayload hinf hnan hdecimal,
      isNumeral_iff_decimal hdecimal]
    exact readNumeral_outcome NumeralStyle.decimal_unambiguous _ _ _

structure Outcome (literal : String) (negative : Bool) (text : List Char) :
    Prop where
  empty : parse literal = .error .empty ↔ text = []
  payload : ∀ digits, text = payloadLiteral digits →
    parse literal = (readPayload digits).map (withSign negative) ∧
      ∀ other, parse literal ≠ .error (.malformedLiteral other) ∧
        parse literal ≠ .error (.outOfRange other)
  infinity : text = ['i', 'n', 'f'] →
    parse literal = .ok (withSign negative Binary64.infinity)
  nan : text = ['n', 'a', 'n'] →
    parse literal = .ok (withSign negative Binary64.nan)
  malformed : IsOrdinary text →
    (parse literal = .error (.malformedLiteral literal) ↔ ¬ IsNumeral text)
  numeral : IsNumeral text → (∃ x, parse literal = .ok x) ∨
    parse literal = .error (.outOfRange literal)
  /-- Without its separators a decimal numeral has plain digits, and the same
  ones. -/
  plain : ∀ numeral, Numeral.Written Digits.Run .decimal text numeral →
    Numeral.Written Digits.PlainRun .decimal (Digits.dropSeparators text) numeral
  accepted : ∀ x, parse literal = .ok x →
    text = ['i', 'n', 'f'] ∨ text = ['n', 'a', 'n'] ∨
      (∃ digits values, text = payloadLiteral digits ∧
        Digits.Run 16 digits values) ∨ IsNumeral text

theorem text_cases (text : List Char) :
    text = [] ∨ (∃ digits, text = payloadLiteral digits) ∨
      text = ['i', 'n', 'f'] ∨ text = ['n', 'a', 'n'] ∨ IsOrdinary text := by
  by_cases hnil : text = []
  · exact Or.inl hnil
  · by_cases hpayload : ∃ digits, text = payloadLiteral digits
    · exact Or.inr (Or.inl hpayload)
    · by_cases hinf : text = ['i', 'n', 'f']
      · exact Or.inr (Or.inr (Or.inl hinf))
      · by_cases hnan : text = ['n', 'a', 'n']
        · exact Or.inr (Or.inr (Or.inr (Or.inl hnan)))
        · exact Or.inr (Or.inr (Or.inr (Or.inr
            ⟨hnil, fun digits heq => hpayload ⟨digits, heq⟩, hinf, hnan⟩)))

theorem parse_ordinary {literal : String} {negative : Bool} {text : List Char}
    (hsigned : Signed literal.toList negative text) (htext : IsOrdinary text) :
    (IsNumeral text ∧ ((∃ x, parse literal = .ok x) ∨
      parse literal = .error (.outOfRange literal))) ∨
    (¬ IsNumeral text ∧ parse literal = .error (.malformedLiteral literal)) := by
  have houtcome := readMagnitude_outcome literal.toList htext
  rw [String.ofList_toList] at houtcome
  rw [parse_of_signed hsigned]
  rcases houtcome with ⟨hnumeral, ⟨x, hread⟩ | hread⟩ | ⟨hnumeral, hread⟩
  · exact Or.inl ⟨hnumeral, Or.inl ⟨withSign negative x, by rw [hread]; rfl⟩⟩
  · exact Or.inl ⟨hnumeral, Or.inr (by rw [hread]; rfl)⟩
  · exact Or.inr ⟨hnumeral, by rw [hread]; rfl⟩

theorem parse_empty {literal : String} {negative : Bool}
    (hsigned : Signed literal.toList negative []) : parse literal = .error .empty := by
  rw [parse_of_signed hsigned]
  rfl

theorem parse_infinity {literal : String} {negative : Bool}
    (hsigned : Signed literal.toList negative ['i', 'n', 'f']) :
    parse literal = .ok (withSign negative Binary64.infinity) := by
  rw [parse_of_signed hsigned]
  rfl

theorem parse_nan {literal : String} {negative : Bool}
    (hsigned : Signed literal.toList negative ['n', 'a', 'n']) :
    parse literal = .ok (withSign negative Binary64.nan) := by
  rw [parse_of_signed hsigned]
  rfl

theorem parse_payload {literal : String} {negative : Bool} {digits : List Char}
    (hsigned : Signed literal.toList negative (payloadLiteral digits)) :
    parse literal = (readPayload digits).map (withSign negative) := by
  rw [parse_of_signed hsigned, readMagnitude_payload]

/-- The faults of a payload are never those of an empty text or a numeral. -/
theorem parse_payload_ne {literal : String} {negative : Bool} {digits : List Char}
    (hsigned : Signed literal.toList negative (payloadLiteral digits)) :
    parse literal ≠ .error .empty ∧ ∀ other,
      parse literal ≠ .error (.malformedLiteral other) ∧
        parse literal ≠ .error (.outOfRange other) := by
  rw [parse_payload hsigned]
  cases hread : readPayload digits with
  | ok x => exact ⟨nofun, fun other => ⟨nofun, nofun⟩⟩
  | error fault =>
      rcases readPayload_error hread with rfl | rfl | rfl | rfl
      all_goals exact ⟨nofun, fun other => ⟨nofun, nofun⟩⟩

theorem parse_eq_empty_iff {literal : String} {negative : Bool} {text : List Char}
    (hsigned : Signed literal.toList negative text) :
    parse literal = .error .empty ↔ text = [] := by
  constructor
  · intro hempty
    rcases text_cases text with htext | ⟨digits, rfl⟩ | rfl | rfl | htext
    · exact htext
    · exact absurd hempty (parse_payload_ne hsigned).1
    · rw [parse_infinity hsigned] at hempty
      exact nomatch hempty
    · rw [parse_nan hsigned] at hempty
      exact nomatch hempty
    · rcases parse_ordinary hsigned htext with ⟨_, ⟨x, h⟩ | h⟩ | ⟨_, h⟩
      all_goals
        rw [h] at hempty
        exact nomatch hempty
  · rintro rfl
    exact parse_empty hsigned

theorem parse_eq_malformed_iff {literal : String} {negative : Bool}
    {text : List Char} (hsigned : Signed literal.toList negative text)
    (htext : IsOrdinary text) :
    parse literal = .error (.malformedLiteral literal) ↔ ¬ IsNumeral text := by
  rcases parse_ordinary hsigned htext with ⟨hnumeral, ⟨x, h⟩ | h⟩ | ⟨hnumeral, h⟩
  · rw [h]
    exact ⟨nofun, fun hnot => absurd hnumeral hnot⟩
  · rw [h]
    exact ⟨nofun, fun hnot => absurd hnumeral hnot⟩
  · exact ⟨fun _ => hnumeral, fun _ => h⟩

theorem text_of_parse_eq_ok {literal : String} {negative : Bool}
    {text : List Char} (hsigned : Signed literal.toList negative text)
    {x : Binary64} (hx : parse literal = .ok x) :
    text = ['i', 'n', 'f'] ∨ text = ['n', 'a', 'n'] ∨
      (∃ digits values, text = payloadLiteral digits ∧
        Digits.Run 16 digits values) ∨ IsNumeral text := by
  rcases text_cases text with rfl | ⟨digits, rfl⟩ | htext | htext | htext
  · rw [parse_empty hsigned] at hx
    exact nomatch hx
  · rw [parse_payload hsigned] at hx
    cases hread : readPayload digits with
    | error fault =>
        rw [hread] at hx
        exact nomatch hx
    | ok y =>
        obtain ⟨values, hvalues⟩ := run_of_readPayload hread
        exact Or.inr (Or.inr (Or.inl ⟨digits, values, rfl, hvalues⟩))
  · exact Or.inl htext
  · exact Or.inr (Or.inl htext)
  · rcases parse_ordinary hsigned htext with ⟨hnumeral, _⟩ | ⟨_, h⟩
    · exact Or.inr (Or.inr (Or.inr hnumeral))
    · rw [h] at hx
      exact nomatch hx

/-- Every literal is a text under at most one sign, and the text decides what
reading gives. -/
theorem parse_outcome (literal : String) :
    (∃ negative text, Signed literal.toList negative text) ∧
      ∀ (negative : Bool) (text : List Char), Signed literal.toList negative text →
        Outcome literal negative text := by
  refine ⟨exists_signed literal.toList, fun negative text hsigned => ?_⟩
  constructor
  · exact parse_eq_empty_iff hsigned
  · rintro digits rfl
    exact ⟨parse_payload hsigned, (parse_payload_ne hsigned).2⟩
  · rintro rfl
    exact parse_infinity hsigned
  · rintro rfl
    exact parse_nan hsigned
  · exact parse_eq_malformed_iff hsigned
  · intro hnumeral
    rcases parse_ordinary hsigned hnumeral.isOrdinary with ⟨_, h⟩ | ⟨hnot, _⟩
    · exact h
    · exact absurd hnumeral hnot
  · exact fun numeral h => h.plain NumeralStyle.decimal_unambiguous
  · exact fun x hx => text_of_parse_eq_ok hsigned hx

theorem parse_outcome_separated :
    Signed "-1_0.5e1".toList true ['1', '_', '0', '.', '5', 'e', '1'] ∧
      Outcome "-1_0.5e1" true ['1', '_', '0', '.', '5', 'e', '1'] :=
  ⟨Signed.minus _, (parse_outcome "-1_0.5e1").2 _ _ (Signed.minus _)⟩

end Literal

end WasmFloat
