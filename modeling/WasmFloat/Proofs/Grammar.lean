import Mathlib.Data.List.TakeWhile
import Mathlib.Tactic.FinCases
import WasmFloat.Numeral
import WasmFloat.Proofs.Runs

namespace WasmFloat

section

variable (run : ℕ → List Char → List ℕ → Prop)

/-- `[+-]? num`. -/
inductive Exponent.Written : List Char → Exponent → Prop
  | unsigned {text : List Char} {digits : List ℕ} :
      run 10 text digits → Exponent.Written text ⟨false, digits⟩
  | plus {text : List Char} {digits : List ℕ} :
      run 10 text digits → Exponent.Written ('+' :: text) ⟨false, digits⟩
  | minus {text : List Char} {digits : List ℕ} :
      run 10 text digits → Exponent.Written ('-' :: text) ⟨true, digits⟩

/-- `('.' num?)?`. -/
inductive Numeral.FractionWritten (radix : ℕ) : List Char → List ℕ → Prop
  | absent : Numeral.FractionWritten radix [] []
  | point : Numeral.FractionWritten radix ['.'] []
  | digits {text : List Char} {digits : List ℕ} :
      run radix text digits → Numeral.FractionWritten radix ('.' :: text) digits

/-- `(marker [+-]? num)?`. -/
inductive Numeral.ExponentWritten (marker : Char → Bool) :
    List Char → Exponent → Prop
  | absent : Numeral.ExponentWritten marker [] Exponent.absent
  | marked {c : Char} {text : List Char} {exponent : Exponent} :
      marker c = true → Exponent.Written run text exponent →
        Numeral.ExponentWritten marker (c :: text) exponent

/-- `num ('.' num?)? (marker [+-]? num)?`, with `num` being whatever is taken
for a run of digits. -/
def Numeral.Written (style : NumeralStyle) (text : List Char)
    (numeral : Numeral) : Prop :=
  ∃ integerText fractionText exponentText,
    text = integerText ++ (fractionText ++ exponentText) ∧
      run style.radix integerText numeral.integer ∧
      Numeral.FractionWritten run style.radix fractionText numeral.fraction ∧
      Numeral.ExponentWritten run style.marker exponentText numeral.exponent

end

/-- The marker of an exponent cannot be taken for a part of a run or for the
point. -/
structure NumeralStyle.Unambiguous (style : NumeralStyle) : Prop where
  radix_le : style.radix ≤ 16
  marker_ne : ∀ c, style.marker c = true →
    c ≠ '_' ∧ c ≠ '.' ∧ Digits.value? style.radix c = none

theorem NumeralStyle.decimal_unambiguous : decimal.Unambiguous := by
  refine ⟨by decide, fun c hc => ?_⟩
  simp only [decimal, Bool.or_eq_true, beq_iff_eq] at hc
  rcases hc with rfl | rfl <;> decide

theorem NumeralStyle.hexadecimal_unambiguous : hexadecimal.Unambiguous := by
  refine ⟨by decide, fun c hc => ?_⟩
  simp only [hexadecimal, Bool.or_eq_true, beq_iff_eq] at hc
  rcases hc with rfl | rfl <;> decide

theorem Exponent.read?_eq_some_iff {text : List Char} {exponent : Exponent} :
    read? text = some exponent ↔ Written Digits.Run text exponent := by
  constructor
  · intro h
    unfold read? at h
    split at h
    all_goals
      obtain ⟨digits, hrun, rfl⟩ := Option.map_eq_some_iff.mp h
      rw [Digits.ofRun?_eq_some_iff (by decide)] at hrun
    · exact Written.minus hrun
    · exact Written.plus hrun
    · exact Written.unsigned hrun
  · rintro (hrun | hrun | hrun)
    · have hfirst : ∀ sign ∈ ['+', '-'], ∀ rest, text ≠ sign :: rest := by
        rintro sign hsign rest rfl
        rcases hrun.mem sign List.mem_cons_self with rfl | ⟨digit, hdigit⟩
        · exact absurd hsign (by decide)
        · rw [← Digits.value?_eq_some_iff (by decide)] at hdigit
          fin_cases hsign <;> exact absurd hdigit (by simp [Digits.value?])
      rw [← Digits.ofRun?_eq_some_iff (by decide)] at hrun
      unfold read?
      split
      · exact absurd rfl (hfirst '-' (by decide) _)
      · exact absurd rfl (hfirst '+' (by decide) _)
      · rw [hrun]
        rfl
    all_goals
      rw [← Digits.ofRun?_eq_some_iff (by decide)] at hrun
      rw [read?, hrun]
      rfl

namespace Numeral

theorem readFraction?_none_iff {radix : ℕ} {digits : List ℕ} :
    readFraction? radix none = some digits ↔ digits = [] := by
  rw [readFraction?, Option.some.injEq, eq_comm]

theorem readFraction?_some_iff {radix : ℕ} (hradix : radix ≤ 16)
    {text : List Char} {digits : List ℕ} :
    readFraction? radix (some text) = some digits ↔
      FractionWritten Digits.Run radix ('.' :: text) digits := by
  cases text with
  | nil =>
      rw [readFraction?, Option.some.injEq]
      constructor
      · rintro rfl
        exact FractionWritten.point
      · rintro (_ | _ | hrun)
        · rfl
        · exact absurd rfl hrun.ne_nil
  | cons c text =>
      rw [readFraction?, Digits.ofRun?_eq_some_iff hradix]
      · constructor
        · exact FractionWritten.digits
        · rintro (_ | _ | hrun)
          exact hrun
      · exact List.cons_ne_nil c text

theorem cut_of_forall {stops : Char → Bool} {text : List Char}
    (h : ∀ c ∈ text, stops c = false) : cut stops text = (text, none) := by
  have hkeep : ∀ c ∈ text, (!stops c) = true := by
    intro c hmem
    rw [h c hmem]
    rfl
  rw [cut, List.takeWhile_eq_self_iff.mpr hkeep,
    List.dropWhile_eq_nil_iff.mpr hkeep]
  rfl

theorem cut_append_cons {stops : Char → Bool} {front : List Char} {c : Char}
    (rest : List Char) (h : ∀ c ∈ front, stops c = false) (hc : stops c = true) :
    cut stops (front ++ c :: rest) = (front, some rest) := by
  have hkeep : ∀ c ∈ front, (!stops c) = true := by
    intro c hmem
    rw [h c hmem]
    rfl
  rw [cut, List.takeWhile_append_of_pos hkeep, List.dropWhile_append_of_pos hkeep,
    List.takeWhile_cons_of_neg (by rw [hc]; decide),
    List.dropWhile_cons_of_neg (by rw [hc]; decide), List.append_nil]
  rfl

/-- A text is cut nowhere or at its first stop. -/
theorem exists_cut (stops : Char → Bool) (text : List Char) :
    ((∀ c ∈ text, stops c = false) ∧ cut stops text = (text, none)) ∨
    ∃ front c rest, text = front ++ c :: rest ∧
      (∀ c ∈ front, stops c = false) ∧ stops c = true ∧
      cut stops text = (front, some rest) := by
  induction text with
  | nil => exact Or.inl ⟨fun c hmem => absurd hmem List.not_mem_nil, rfl⟩
  | cons head text ih =>
      cases hhead : stops head with
      | true =>
          right
          exact ⟨[], head, text, rfl, fun c hmem => absurd hmem List.not_mem_nil,
            hhead, cut_append_cons text (fun c hmem => absurd hmem List.not_mem_nil)
              hhead⟩
      | false =>
          have hfront : ∀ {front : List Char}, (∀ c ∈ front, stops c = false) →
              ∀ c ∈ head :: front, stops c = false := by
            intro front h c hmem
            rcases List.mem_cons.mp hmem with rfl | hmem
            · exact hhead
            · exact h c hmem
          rcases ih with ⟨h, _⟩ | ⟨front, c, rest, rfl, h, hc, _⟩
          · exact Or.inl ⟨hfront h, cut_of_forall (hfront h)⟩
          · exact Or.inr ⟨head :: front, c, rest, rfl, hfront h, hc,
              cut_append_cons rest (hfront h) hc⟩

theorem FractionWritten.mem {radix : ℕ} {text : List Char} {digits : List ℕ}
    (h : FractionWritten Digits.Run radix text digits) :
    ∀ c ∈ text, c = '.' ∨ c = '_' ∨ ∃ digit, Digits.IsDigit radix c digit := by
  intro c hmem
  cases h with
  | absent => exact absurd hmem List.not_mem_nil
  | point => exact Or.inl (List.mem_singleton.mp hmem)
  | digits hrun =>
      rcases List.mem_cons.mp hmem with rfl | hmem
      · exact Or.inl rfl
      · exact Or.inr (hrun.mem c hmem)

theorem ExponentWritten.mem {marker : Char → Bool} {text : List Char}
    {exponent : Exponent} (h : ExponentWritten Digits.Run marker text exponent) :
    ∀ c ∈ text, marker c = true ∨ c = '+' ∨ c = '-' ∨ c = '_' ∨
      ∃ digit, Digits.IsDigit 10 c digit := by
  intro c hmem
  cases h with
  | absent => exact absurd hmem List.not_mem_nil
  | marked hmarker hwritten =>
      rcases List.mem_cons.mp hmem with rfl | hmem
      · exact Or.inl hmarker
      right
      cases hwritten with
      | unsigned hrun => exact Or.inr (Or.inr (hrun.mem c hmem))
      | plus hrun =>
          rcases List.mem_cons.mp hmem with hsign | hmem
          · exact Or.inl hsign
          · exact Or.inr (Or.inr (hrun.mem c hmem))
      | minus hrun =>
          rcases List.mem_cons.mp hmem with hsign | hmem
          · exact Or.inr (Or.inl hsign)
          · exact Or.inr (Or.inr (hrun.mem c hmem))

theorem marker_eq_false {style : NumeralStyle} (hstyle : style.Unambiguous)
    {c : Char}
    (hc : c = '.' ∨ c = '_' ∨ ∃ digit, Digits.IsDigit style.radix c digit) :
    style.marker c = false := by
  cases hmarker : style.marker c with
  | false => rfl
  | true =>
      obtain ⟨hunderscore, hpoint, hvalue⟩ := hstyle.marker_ne c hmarker
      rcases hc with rfl | rfl | ⟨digit, hdigit⟩
      · exact absurd rfl hpoint
      · exact absurd rfl hunderscore
      · rw [← Digits.value?_eq_some_iff hstyle.radix_le, hvalue] at hdigit
        exact nomatch hdigit

theorem isPoint_eq_false {radix : ℕ} (hradix : radix ≤ 16) {text : List Char}
    {digits : List ℕ} (h : Digits.Run radix text digits) :
    ∀ c ∈ text, (c == '.') = false := by
  intro c hmem
  rw [beq_eq_false_iff_ne]
  rintro rfl
  rcases h.mem '.' hmem with hc | ⟨digit, hdigit⟩
  · exact absurd hc (by decide)
  · rw [← Digits.value?_eq_some_iff hradix, Digits.value?_point] at hdigit
    exact nomatch hdigit

def readMantissa? (radix : ℕ) (text : List Char) :
    Option (List ℕ × List ℕ) := do
  let integer ← Digits.ofRun? radix (cut (· == '.') text).1
  let fraction ← readFraction? radix (cut (· == '.') text).2
  return (integer, fraction)

theorem readMantissa?_eq_some_iff {radix : ℕ} (hradix : radix ≤ 16)
    {text : List Char} {integer fraction : List ℕ} :
    readMantissa? radix text = some (integer, fraction) ↔
      ∃ integerText fractionText, text = integerText ++ fractionText ∧
        Digits.Run radix integerText integer ∧
        FractionWritten Digits.Run radix fractionText fraction := by
  have hread : readMantissa? radix text = some (integer, fraction) ↔
      Digits.ofRun? radix (cut (· == '.') text).1 = some integer ∧
        readFraction? radix (cut (· == '.') text).2 = some fraction := by
    simp [readMantissa?, Option.bind_eq_some_iff]
  rw [hread]
  constructor
  · rintro ⟨hinteger, hfraction⟩
    rcases exists_cut (· == '.') text with ⟨_, hcut⟩ | ⟨front, c, rest, rfl, _, hc, hcut⟩
    · rw [hcut] at hinteger hfraction
      rw [readFraction?_none_iff] at hfraction
      rw [Digits.ofRun?_eq_some_iff hradix] at hinteger
      subst hfraction
      exact ⟨text, [], (List.append_nil text).symm, hinteger,
        FractionWritten.absent⟩
    · rw [hcut] at hinteger hfraction
      rw [readFraction?_some_iff hradix] at hfraction
      rw [Digits.ofRun?_eq_some_iff hradix] at hinteger
      rw [beq_iff_eq] at hc
      subst hc
      exact ⟨front, '.' :: rest, rfl, hinteger, hfraction⟩
  · rintro ⟨integerText, fractionText, rfl, hinteger, hfraction⟩
    have hpoint := isPoint_eq_false hradix hinteger
    cases hfraction with
    | absent =>
        rw [List.append_nil, cut_of_forall hpoint]
        rw [Digits.ofRun?_eq_some_iff hradix]
        exact ⟨hinteger, rfl⟩
    | point =>
        rw [cut_append_cons [] hpoint rfl, Digits.ofRun?_eq_some_iff hradix]
        exact ⟨hinteger, rfl⟩
    | digits hrun =>
        rw [cut_append_cons _ hpoint rfl, Digits.ofRun?_eq_some_iff hradix,
          readFraction?_some_iff hradix]
        exact ⟨hinteger, FractionWritten.digits hrun⟩

def readExponent? : Option (List Char) → Option Exponent
  | none => some Exponent.absent
  | some written => Exponent.read? written

theorem read?_eq_some_iff_parts (style : NumeralStyle) (text : List Char)
    (numeral : Numeral) :
    read? style text = some numeral ↔
      readMantissa? style.radix (cut style.marker text).1 =
          some (numeral.integer, numeral.fraction) ∧
        readExponent? (cut style.marker text).2 = some numeral.exponent := by
  have hread : read? style text =
      (readExponent? (cut style.marker text).2).bind fun exponent =>
        (readMantissa? style.radix (cut style.marker text).1).map fun parts =>
          ⟨parts.1, parts.2, exponent⟩ := by
    unfold read? readMantissa? readExponent?
    rcases cut style.marker text with ⟨mantissa, _ | written⟩
    all_goals
      simp [Option.map_bind]
  rw [hread]
  constructor
  · intro h
    obtain ⟨exponent, hexponent, h⟩ := Option.bind_eq_some_iff.mp h
    obtain ⟨⟨integer, fraction⟩, hmantissa, rfl⟩ := Option.map_eq_some_iff.mp h
    exact ⟨hmantissa, hexponent⟩
  · rintro ⟨hmantissa, hexponent⟩
    rw [hmantissa, hexponent]
    rfl

/-- The reader of numerals decides the grammar. -/
theorem read?_eq_some_iff {style : NumeralStyle} (hstyle : style.Unambiguous)
    {text : List Char} {numeral : Numeral} :
    read? style text = some numeral ↔ Written Digits.Run style text numeral := by
  obtain ⟨integer, fraction, exponent⟩ := numeral
  rw [read?_eq_some_iff_parts]
  constructor
  · rintro ⟨hmantissa, hexponent⟩
    rcases exists_cut style.marker text with
      ⟨_, hcut⟩ | ⟨front, c, rest, rfl, _, hc, hcut⟩
    · rw [hcut] at hmantissa hexponent
      obtain ⟨integerText, fractionText, rfl, hinteger, hfraction⟩ :=
        (readMantissa?_eq_some_iff hstyle.radix_le).mp hmantissa
      cases hexponent
      refine ⟨integerText, fractionText, [], by rw [List.append_nil], hinteger,
        hfraction, ?_⟩
      exact ExponentWritten.absent
    · rw [hcut] at hmantissa hexponent
      obtain ⟨integerText, fractionText, rfl, hinteger, hfraction⟩ :=
        (readMantissa?_eq_some_iff hstyle.radix_le).mp hmantissa
      refine ⟨integerText, fractionText, c :: rest, by rw [List.append_assoc],
        hinteger, hfraction, ExponentWritten.marked hc ?_⟩
      exact Exponent.read?_eq_some_iff.mp hexponent
  · rintro ⟨integerText, fractionText, exponentText, rfl, hinteger, hfraction,
      hexponent⟩
    have hmantissa := (readMantissa?_eq_some_iff hstyle.radix_le).mpr
      ⟨integerText, fractionText, rfl, hinteger, hfraction⟩
    have hfree : ∀ c ∈ integerText ++ fractionText, style.marker c = false := by
      intro c hmem
      apply marker_eq_false hstyle
      rcases List.mem_append.mp hmem with hmem | hmem
      · exact Or.inr (hinteger.mem c hmem)
      · exact hfraction.mem c hmem
    rw [← List.append_assoc]
    cases hexponent with
    | absent =>
        rw [List.append_nil, cut_of_forall hfree]
        exact ⟨hmantissa, rfl⟩
    | marked hc hwritten =>
        rw [cut_append_cons _ hfree hc]
        exact ⟨hmantissa, Exponent.read?_eq_some_iff.mpr hwritten⟩

theorem Written.plain {style : NumeralStyle} (hstyle : style.Unambiguous)
    {text : List Char} {numeral : Numeral}
    (h : Written Digits.Run style text numeral) :
    Written Digits.PlainRun style (Digits.dropSeparators text) numeral := by
  have hkeep : ∀ (c : Char) (rest : List Char), c ≠ '_' →
      Digits.dropSeparators (c :: rest) = c :: Digits.dropSeparators rest := by
    intro c rest hc
    exact List.filter_cons_of_pos (by simpa using hc)
  obtain ⟨integer, fraction, exponent⟩ := numeral
  obtain ⟨integerText, fractionText, exponentText, rfl, hinteger, hfraction,
    hexponent⟩ := h
  refine ⟨Digits.dropSeparators integerText, Digits.dropSeparators fractionText,
    Digits.dropSeparators exponentText, ?_, hinteger.plainRun hstyle.radix_le,
    ?_, ?_⟩
  · simp only [Digits.dropSeparators, List.filter_append]
  · simp only at hfraction
    cases hfraction with
    | absent => exact FractionWritten.absent
    | point => exact FractionWritten.point
    | digits hrun =>
        rw [hkeep '.' _ (by decide)]
        exact FractionWritten.digits (hrun.plainRun hstyle.radix_le)
  · simp only at hexponent
    cases hexponent with
    | absent => exact ExponentWritten.absent
    | marked hmarker hwritten =>
        rw [hkeep _ _ (hstyle.marker_ne _ hmarker).1]
        refine ExponentWritten.marked hmarker ?_
        cases hwritten with
        | unsigned hrun => exact Exponent.Written.unsigned (hrun.plainRun (by decide))
        | plus hrun =>
            rw [hkeep '+' _ (by decide)]
            exact Exponent.Written.plus (hrun.plainRun (by decide))
        | minus hrun =>
            rw [hkeep '-' _ (by decide)]
            exact Exponent.Written.minus (hrun.plainRun (by decide))

theorem Written.mono {run other : ℕ → List Char → List ℕ → Prop}
    (hrun : ∀ {radix text digits}, run radix text digits → other radix text digits)
    {style : NumeralStyle} {text : List Char} {numeral : Numeral}
    (h : Written run style text numeral) : Written other style text numeral := by
  obtain ⟨integer, fraction, exponent⟩ := numeral
  obtain ⟨integerText, fractionText, exponentText, rfl, hinteger, hfraction,
    hexponent⟩ := h
  refine ⟨integerText, fractionText, exponentText, rfl, hrun hinteger, ?_, ?_⟩
  · cases hfraction with
    | absent => exact FractionWritten.absent
    | point => exact FractionWritten.point
    | digits hdigits => exact FractionWritten.digits (hrun hdigits)
  · cases hexponent with
    | absent => exact ExponentWritten.absent
    | marked hmarker hwritten =>
        refine ExponentWritten.marked hmarker ?_
        cases hwritten with
        | unsigned hdigits => exact Exponent.Written.unsigned (hrun hdigits)
        | plus hdigits => exact Exponent.Written.plus (hrun hdigits)
        | minus hdigits => exact Exponent.Written.minus (hrun hdigits)

/-- A text is one numeral at most. -/
theorem Written.unique {style : NumeralStyle} (hstyle : style.Unambiguous)
    {text : List Char} {numeral other : Numeral}
    (h : Written Digits.Run style text numeral)
    (hother : Written Digits.Run style text other) : other = numeral := by
  rw [← read?_eq_some_iff hstyle] at h hother
  rw [h] at hother
  exact (Option.some.inj hother).symm

theorem Written.plain_iff {style : NumeralStyle} (hstyle : style.Unambiguous)
    {text : List Char} {numeral : Numeral}
    (h : Written Digits.Run style text numeral) (other : Numeral) :
    Written Digits.PlainRun style (Digits.dropSeparators text) other ↔
      other = numeral := by
  constructor
  · intro hother
    exact ((h.plain hstyle).mono Digits.PlainRun.run).unique hstyle
      (hother.mono Digits.PlainRun.run)
  · rintro rfl
    exact h.plain hstyle

theorem Written.head_ne {style : NumeralStyle} (hstyle : style.Unambiguous)
    {text : List Char} {numeral : Numeral}
    (h : Written Digits.Run style text numeral) :
    text.head? ≠ some '+' ∧ text.head? ≠ some '-' := by
  obtain ⟨integerText, fractionText, exponentText, rfl, hinteger, _⟩ := h
  exact hinteger.head_ne hstyle.radix_le _

end Numeral

end WasmFloat
