import WasmFloat.Proofs.RoundTrip

namespace WasmFloat

namespace Binary64

def OverlapsExponent (n : ℕ) : Prop := ∃ i, 52 ≤ i ∧ i ≤ 62 ∧ n.testBit i = true

theorem and_exponentMask_ne_zero_iff (payload : UInt64) :
    payload &&& exponentMask ≠ 0 ↔ OverlapsExponent payload.toNat := by
  rw [Ne, ← UInt64.toNat_inj, UInt64.toNat_and,
    show exponentMask.toNat = (2 ^ 11 - 1) * 2 ^ 52 from rfl,
    show (0 : UInt64).toNat = 0 from rfl, ← Ne, and_shifted_ones_ne_zero_iff]
  refine exists_congr fun i => ?_
  rw [show i < 52 + 11 ↔ i ≤ 62 by omega]

theorem and_signMask_ne_zero_iff (payload : UInt64) :
    payload &&& signMask ≠ 0 ↔ payload.toNat.testBit 63 = true := by
  rw [Ne, ← UInt64.toNat_inj, UInt64.toNat_and,
    show signMask.toNat = (2 ^ 1 - 1) * 2 ^ 63 from rfl,
    show (0 : UInt64).toNat = 0 from rfl, ← Ne, and_shifted_ones_ne_zero_iff]
  constructor
  · rintro ⟨i, hlow, hhigh, hbit⟩
    rwa [show i = 63 by omega] at hbit
  · exact fun hbit => ⟨63, le_rfl, by decide, hbit⟩

theorem lt_of_not_overlapsExponent {payload : UInt64}
    (hexponent : ¬ OverlapsExponent payload.toNat)
    (hsign : payload.toNat.testBit 63 = false) : payload.toNat < 2 ^ 52 := by
  apply Nat.lt_pow_two_of_testBit
  intro i hi
  rcases Nat.lt_trichotomy i 63 with hlow | rfl | hhigh
  · rw [← Bool.not_eq_true]
    exact fun hbit => hexponent ⟨i, hi, by omega, hbit⟩
  · exact hsign
  · apply Nat.testBit_lt_two_pow
    exact payload.toNat_lt.trans_le (Nat.pow_le_pow_right (by decide) hhigh)

section

variable {payload : UInt64} (hlt : payload.toNat < 2 ^ 52)

include hlt

theorem toNat_bareNan_or :
    (bareNan ||| payload).toNat = Format.binary64.infinity + payload.toNat := by
  rw [UInt64.toNat_or, show bareNan.toNat = 2047 <<< 52 from rfl,
    ← Nat.shiftLeft_add_eq_or_of_lt hlt, Nat.shiftLeft_eq]
  rfl

theorem fields_bareNan_or :
    (mk (bareNan ||| payload)).isNegative = false ∧
      (mk (bareNan ||| payload)).magnitude =
        Format.binary64.infinity + payload.toNat := by
  have hinfinity : Format.binary64.infinity = 2047 * 2 ^ 52 := rfl
  have hword := toNat_bareNan_or hlt
  rw [← Bool.not_eq_true, isNegative_iff, magnitude_eq, hword]
  omega

theorem payload?_bareNan_or (hne : payload ≠ 0) :
    (mk (bareNan ||| payload)).payload? = some payload := by
  have hinfinity : Format.binary64.infinity = 2047 * 2 ^ 52 := rfl
  have hpos : payload.toNat ≠ 0 := fun hzero => hne (UInt64.toNat_inj.mp hzero)
  have hnan : (mk (bareNan ||| payload)).isNan = true := by
    rw [isNan_iff, (fields_bareNan_or hlt).2]
    omega
  rw [payload?, if_pos hnan, Option.some.injEq, ← UInt64.toNat_inj,
    toNat_and_fractionMask, toNat_bareNan_or hlt]
  omega

end

end Binary64

namespace Literal

theorem SpellsNumber.unique {text : List Char} {n other : ℕ} (h : SpellsNumber text n)
    (hother : SpellsNumber text other) : other = n := by
  obtain ⟨digits, hdigits, rfl⟩ := h
  obtain ⟨others, hothers, rfl⟩ := hother
  rw [hdigits.unique (by decide) hothers]

theorem SpellsNumber.zeros {text : List Char} {n : ℕ} (h : SpellsNumber text n)
    (count : ℕ) : SpellsNumber (List.replicate count '0' ++ text) n := by
  obtain ⟨digits, hdigits, rfl⟩ := h
  cases count with
  | zero => exact ⟨digits, hdigits, rfl⟩
  | succ count =>
      refine ⟨_, (Digits.run_zeros (by decide) count).append hdigits, ?_⟩
      rw [Digits.toNat_append, Digits.toNat_zeros, Nat.zero_mul, Nat.zero_add]

theorem spellsNumber_separated_iff {front back : List Char} {digits others : List ℕ}
    (hfront : Digits.Run 16 front digits) (hback : Digits.Run 16 back others) (n : ℕ) :
    SpellsNumber (front ++ '_' :: back) n ↔ SpellsNumber (front ++ back) n := by
  have hjoined : SpellsNumber (front ++ back) (Digits.toNat 16 (digits ++ others)) :=
    ⟨_, hfront.append hback, rfl⟩
  have hseparated : SpellsNumber (front ++ '_' :: back)
      (Digits.toNat 16 (digits ++ others)) := ⟨_, hfront.append_separated hback, rfl⟩
  constructor
  · intro h
    rwa [hseparated.unique h]
  · intro h
    rwa [hjoined.unique h]

/-- One more digit at the end of a word, the product and the sum being checked. -/
def appendChecked? (word : UInt64) (digit : ℕ) : Option UInt64 := do
  let product ← if word.toNat * 16 < UInt64.size then some (word * 16) else none
  if product.toNat + digit < UInt64.size then some (product + UInt64.ofNat digit)
  else none

def gather? (text : List Char) : Option UInt64 := do
  let digits ← Digits.ofRun? 16 text
  digits.foldlM appendChecked? 0

theorem appendChecked?_eq (word : UInt64) (digit : ℕ) :
    appendChecked? word digit =
      if word.toNat * 16 + digit < UInt64.size then
        some (UInt64.ofNat (word.toNat * 16 + digit)) else none := by
  have hsize : UInt64.size = 2 ^ 64 := rfl
  rw [appendChecked?]
  by_cases hproduct : word.toNat * 16 < UInt64.size
  · have hword : (word * 16).toNat = word.toNat * 16 := by
      rw [UInt64.toNat_mul]
      exact Nat.mod_eq_of_lt hproduct
    rw [if_pos hproduct]
    simp only [Option.bind_eq_bind, Option.bind_some, hword]
    split
    · congr 1
      rw [← UInt64.toNat_inj, UInt64.toNat_add, hword, UInt64.toNat_ofNat',
        UInt64.toNat_ofNat']
      omega
    · rfl
  · rw [if_neg hproduct, if_neg (by omega)]
    rfl

/-- The word overflows just if the number does not fit: once it is too large, more
digits leave it so. -/
theorem foldlM_appendChecked? (digits : List ℕ) :
    digits.foldlM appendChecked? 0 =
      if Digits.toNat 16 digits < UInt64.size then
        some (UInt64.ofNat (Digits.toNat 16 digits)) else none := by
  induction digits using List.reverseRecOn with
  | nil => rfl
  | append_singleton digits digit ih =>
      rw [List.foldlM_append, ih, Digits.toNat_concat]
      generalize Digits.toNat 16 digits = n
      by_cases hfits : n < UInt64.size
      · rw [if_pos hfits]
        simp only [Option.bind_eq_bind, Option.bind_some, List.foldlM_cons,
          List.foldlM_nil, appendChecked?_eq, UInt64.toNat_ofNat_of_lt' hfits]
        split <;> rfl
      · rw [if_neg hfits, if_neg (by omega)]
        rfl

theorem payloadNumber?_eq_gather? (text : List Char) :
    payloadNumber? text = gather? text := by
  unfold payloadNumber? gather?
  cases Digits.ofRun? 16 text with
  | none => rfl
  | some digits => exact (foldlM_appendChecked? digits).symm

theorem payloadNumber?_eq_none_iff {text : List Char} :
    payloadNumber? text = none ↔ ∀ n, SpellsNumber text n → 2 ^ 64 ≤ n := by
  constructor
  · intro hnone n hn
    by_contra hfits
    have hword : (UInt64.ofNat n).toNat = n :=
      UInt64.toNat_ofNat_of_lt' (Nat.not_le.mp hfits)
    rw [← hword, ← payloadNumber?_eq_some_iff, hnone] at hn
    exact nomatch hn
  · intro hlarge
    rw [Option.eq_none_iff_forall_ne_some]
    intro payload hsome
    exact absurd payload.toNat_lt (hlarge _ (payloadNumber?_eq_some_iff.mp hsome)).not_gt

/-- What a NaN literal is read as, by the number of its digits. A number that overlaps the
exponent is refused for this, whether or not it overlaps the sign too. -/
inductive PayloadOutcome (negative : Bool) (text : List Char) :
    Except Fault Binary64 → Prop
  | malformed : (∀ n, SpellsNumber text n → 2 ^ 64 ≤ n) →
      PayloadOutcome negative text (.error (.malformedPayload (String.ofList text)))
  | zero : SpellsNumber text 0 → PayloadOutcome negative text (.error .zeroPayload)
  | exponent {payload : UInt64} : SpellsNumber text payload.toNat →
      Binary64.OverlapsExponent payload.toNat →
      PayloadOutcome negative text (.error .payloadOverlapsExponent)
  | sign {payload : UInt64} : SpellsNumber text payload.toNat →
      ¬ Binary64.OverlapsExponent payload.toNat → payload.toNat.testBit 63 = true →
      PayloadOutcome negative text (.error .payloadOverlapsSign)
  | nan {payload : UInt64} : SpellsNumber text payload.toNat → payload ≠ 0 →
      ¬ Binary64.OverlapsExponent payload.toNat → payload.toNat.testBit 63 = false →
      PayloadOutcome negative text (.ok ⟨Binary64.bareNan ||| payload |||
        if negative then Binary64.signMask else 0⟩)

theorem readPayload_of_spellsNumber {text : List Char} {payload : UInt64}
    (h : SpellsNumber text payload.toNat) :
    readPayload text =
      if payload = 0 then .error .zeroPayload
      else if payload &&& Binary64.exponentMask ≠ 0 then .error .payloadOverlapsExponent
      else if payload &&& Binary64.signMask ≠ 0 then .error .payloadOverlapsSign
      else .ok ⟨Binary64.bareNan ||| payload⟩ := by
  rw [readPayload, payloadNumber?_eq_some_iff.mpr h]

theorem withSign_bareNan_or (negative : Bool) {payload : UInt64}
    (hlt : payload.toNat < 2 ^ 52) :
    withSign negative ⟨Binary64.bareNan ||| payload⟩ =
      ⟨Binary64.bareNan ||| payload ||| if negative then Binary64.signMask else 0⟩ := by
  cases negative with
  | false => simp [withSign]
  | true => exact Binary64.neg_eq_or (Binary64.fields_bareNan_or hlt).1

theorem PayloadOutcome.readPayload {negative : Bool} {text : List Char}
    {outcome : Except Fault Binary64} (h : PayloadOutcome negative text outcome) :
    (Literal.readPayload text).map (withSign negative) = outcome := by
  cases h with
  | malformed hlarge =>
      rw [Literal.readPayload, payloadNumber?_eq_none_iff.mpr hlarge]
      rfl
  | zero hzero =>
      rw [@readPayload_of_spellsNumber text 0 hzero, if_pos rfl]
      rfl
  | @exponent payload hspells hexponent =>
      have hne : payload ≠ 0 := by
        rintro rfl
        obtain ⟨i, _, _, hbit⟩ := hexponent
        simp at hbit
      rw [readPayload_of_spellsNumber hspells, if_neg hne,
        if_pos ((Binary64.and_exponentMask_ne_zero_iff payload).mpr hexponent)]
      rfl
  | @sign payload hspells hexponent hsign =>
      have hne : payload ≠ 0 := by
        rintro rfl
        simp at hsign
      rw [readPayload_of_spellsNumber hspells, if_neg hne,
        if_neg ((Binary64.and_exponentMask_ne_zero_iff payload).not.mpr hexponent),
        if_pos ((Binary64.and_signMask_ne_zero_iff payload).mpr hsign)]
      rfl
  | @nan payload hspells hne hexponent hsign =>
      have hclear : ¬ payload.toNat.testBit 63 = true := by
        rw [hsign]
        exact Bool.false_ne_true
      have hlt := Binary64.lt_of_not_overlapsExponent hexponent hsign
      rw [readPayload_of_spellsNumber hspells, if_neg hne,
        if_neg ((Binary64.and_exponentMask_ne_zero_iff payload).not.mpr hexponent),
        if_neg ((Binary64.and_signMask_ne_zero_iff payload).not.mpr hclear)]
      exact congrArg Except.ok (withSign_bareNan_or negative hlt)

theorem exists_payloadOutcome (negative : Bool) (text : List Char) :
    ∃ outcome, PayloadOutcome negative text outcome := by
  cases hpayload : payloadNumber? text with
  | none => exact ⟨_, .malformed (payloadNumber?_eq_none_iff.mp hpayload)⟩
  | some payload =>
      rw [payloadNumber?_eq_some_iff] at hpayload
      by_cases hzero : payload = 0
      · rw [hzero] at hpayload
        exact ⟨_, .zero hpayload⟩
      by_cases hexponent : Binary64.OverlapsExponent payload.toNat
      · exact ⟨_, .exponent hpayload hexponent⟩
      cases hsign : payload.toNat.testBit 63 with
      | true => exact ⟨_, .sign hpayload hexponent hsign⟩
      | false => exact ⟨_, .nan hpayload hzero hexponent hsign⟩

theorem parse_eq_iff_payloadOutcome {literal : String} {negative : Bool}
    {text : List Char} (hsigned : Signed literal.toList negative (payloadLiteral text))
    (outcome : Except Fault Binary64) :
    parse literal = outcome ↔ PayloadOutcome negative text outcome := by
  rw [parse_payload hsigned]
  constructor
  · rintro rfl
    obtain ⟨outcome, h⟩ := exists_payloadOutcome negative text
    rwa [h.readPayload]
  · exact PayloadOutcome.readPayload

theorem parse_eq_of_spellsNumber {literal other : String} {negative : Bool}
    {text otherText : List Char} {n : ℕ}
    (hsigned : Signed literal.toList negative (payloadLiteral text))
    (hother : Signed other.toList negative (payloadLiteral otherText))
    (htext : SpellsNumber text n) (hotherText : SpellsNumber otherText n)
    (hlt : n < 2 ^ 64) : parse other = parse literal := by
  have hword : (UInt64.ofNat n).toNat = n := UInt64.toNat_ofNat_of_lt' hlt
  rw [← hword] at htext hotherText
  rw [parse_payload hsigned, parse_payload hother, readPayload_of_spellsNumber htext,
    readPayload_of_spellsNumber hotherText]

theorem isNan_of_parse_payload {literal : String} {negative : Bool} {text : List Char}
    (hsigned : Signed literal.toList negative (payloadLiteral text)) {x : Binary64}
    (h : parse literal = .ok x) :
    x.isNan = true ∧ x.isNegative = negative ∧
      ∃ payload, SpellsNumber text payload.toNat ∧ x.payload? = some payload := by
  rw [parse_eq_iff_payloadOutcome hsigned] at h
  cases h with
  | @nan payload hspells hne hexponent hsign =>
      have hlt := Binary64.lt_of_not_overlapsExponent hexponent hsign
      rw [← withSign_bareNan_or negative hlt]
      have hmagnitude : (withSign negative ⟨Binary64.bareNan ||| payload⟩).magnitude =
          (Binary64.mk (Binary64.bareNan ||| payload)).magnitude := by
        cases negative with
        | false => rfl
        | true => exact Binary64.magnitude_neg _
      have hpayload := Binary64.payload?_of_magnitude hmagnitude
      rw [Binary64.payload?_bareNan_or hlt hne] at hpayload
      exact ⟨Binary64.isNan_of_payload? hpayload,
        isNegative_withSign (Binary64.fields_bareNan_or hlt).1 negative,
        payload, hspells, hpayload⟩

theorem signed_decimal_of_isNan {x : Binary64} (h : x.isNan = true) :
    Signed (decimal x).toList x.isNegative
      (payloadLiteral (Digits.text 16 (x.abs.bits ^^^ Binary64.bareNan).toNat)) := by
  rw [decimal, String.toList_ofList, write]
  simp only [Binary64.isNan_abs, h, if_true]
  cases x.isNegative with
  | false => exact Signed.unsigned (by simp) (by simp)
  | true => exact Signed.minus _

theorem exists_payload_decimal {x : Binary64} (h : x.isNan = true) :
    ∃ text payload, Signed (decimal x).toList x.isNegative (payloadLiteral text) ∧
      SpellsNumber text payload.toNat ∧ x.payload? = some payload ∧
      parse (decimal x) = .ok x := by
  have hnot : ¬ x.isFinite = true := by
    rw [Binary64.isFinite_eq_false (Or.inr h)]
    exact Bool.false_ne_true
  have hparse : parse (decimal x) = .ok x :=
    parse_write (fun hfinite => absurd hfinite hnot) fun hfinite => absurd hfinite hnot
  have hsigned := signed_decimal_of_isNan h
  obtain ⟨_, _, payload, hspells, hpayload⟩ := isNan_of_parse_payload hsigned hparse
  exact ⟨_, payload, hsigned, hspells, hpayload, hparse⟩

structure ReadsPayload (literal : String) (negative : Bool) (text : List Char) :
    Prop where
  outcome_iff : ∀ outcome, parse literal = outcome ↔ PayloadOutcome negative text outcome
  /-- Checked arithmetic in one word finds the number, or that it does not fit. -/
  gathered : payloadNumber? text = gather? text
  zeros : ∀ count n, SpellsNumber text n →
    SpellsNumber (List.replicate count '0' ++ text) n
  separated : ∀ front back digits others, Digits.Run 16 front digits →
    Digits.Run 16 back others → text = front ++ back →
      ∀ n, SpellsNumber (front ++ '_' :: back) n ↔ SpellsNumber text n
  sameNumber : ∀ other otherText n,
    Signed other.toList negative (payloadLiteral otherText) → SpellsNumber text n →
      SpellsNumber otherText n → n < 2 ^ 64 → parse other = parse literal
  nan : ∀ x, parse literal = .ok x → x.isNan = true ∧ x.isNegative = negative ∧
    ∃ payload, SpellsNumber text payload.toNat ∧ x.payload? = some payload

/-- A NaN literal is read exactly, however long its digits are, and every NaN is read
from the literal that is written for it. -/
theorem readsPayload_and_writesPayload :
    (∀ literal negative text, Signed literal.toList negative (payloadLiteral text) →
      ReadsPayload literal negative text) ∧
    ∀ x : Binary64, x.isNan = true →
      ∃ text payload, Signed (decimal x).toList x.isNegative (payloadLiteral text) ∧
        SpellsNumber text payload.toNat ∧ x.payload? = some payload ∧
        parse (decimal x) = .ok x := by
  refine ⟨fun literal negative text hsigned => ?_, fun x h => exists_payload_decimal h⟩
  constructor
  · exact parse_eq_iff_payloadOutcome hsigned
  · exact payloadNumber?_eq_gather? text
  · exact fun count n h => h.zeros count
  · rintro front back digits others hfront hback rfl n
    exact spellsNumber_separated_iff hfront hback n
  · intro other otherText n hother htext hotherText hlt
    exact parse_eq_of_spellsNumber hsigned hother htext hotherText hlt
  · exact fun x h => isNan_of_parse_payload hsigned h

/-- Seventeen digits still fit when the first is a zero, and the sign is looked at
last. -/
theorem readsPayload_overlapsSign :
    Signed "-nan(0x0_8000_0000_0000_0000)".toList true
        (payloadLiteral "0_8000_0000_0000_0000".toList) ∧
      parse "-nan(0x0_8000_0000_0000_0000)" = .error .payloadOverlapsSign ∧
      (Binary64.mk 0xFFF0000000000001).isNan = true ∧
      ∃ text payload, Signed (decimal ⟨0xFFF0000000000001⟩).toList true
          (payloadLiteral text) ∧
        SpellsNumber text payload.toNat ∧
        (Binary64.mk 0xFFF0000000000001).payload? = some payload ∧
        parse (decimal ⟨0xFFF0000000000001⟩) = .ok ⟨0xFFF0000000000001⟩ := by
  have hsigned : Signed "-nan(0x0_8000_0000_0000_0000)".toList true
      (payloadLiteral "0_8000_0000_0000_0000".toList) := Signed.minus _
  have hspells : SpellsNumber "0_8000_0000_0000_0000".toList
      (0x8000000000000000 : UInt64).toNat :=
    payloadNumber?_eq_some_iff.mp rfl
  have hclear : ¬ Binary64.OverlapsExponent (0x8000000000000000 : UInt64).toNat := by
    rw [← Binary64.and_exponentMask_ne_zero_iff]
    decide
  have hnan : (Binary64.mk 0xFFF0000000000001).isNan = true := by decide
  refine ⟨hsigned, ?_, hnan, readsPayload_and_writesPayload.2 _ hnan⟩
  exact ((readsPayload_and_writesPayload.1 _ _ _ hsigned).outcome_iff _).mpr
    (.sign hspells hclear (by decide))

end Literal

end WasmFloat
