import Mathlib.Tactic.IntervalCases
import WasmFloat.Digits

namespace WasmFloat

namespace Digits

/-- The character is the digit of this value, a letter in either case. -/
def IsDigit (radix : ℕ) (c : Char) (value : ℕ) : Prop :=
  value < radix ∧ (c = Nat.digitChar value ∨ c = (Nat.digitChar value).toUpper)

/-- `digit ('_'? digit)*`. -/
inductive Run (radix : ℕ) : List Char → List ℕ → Prop
  | single {c : Char} {digit : ℕ} :
      IsDigit radix c digit → Run radix [c] [digit]
  | next {c : Char} {digit : ℕ} {text : List Char} {digits : List ℕ} :
      IsDigit radix c digit → Run radix text digits →
        Run radix (c :: text) (digit :: digits)
  | separated {c : Char} {digit : ℕ} {text : List Char} {digits : List ℕ} :
      IsDigit radix c digit → Run radix text digits →
        Run radix (c :: '_' :: text) (digit :: digits)

/-- `digit+`. -/
inductive PlainRun (radix : ℕ) : List Char → List ℕ → Prop
  | single {c : Char} {digit : ℕ} :
      IsDigit radix c digit → PlainRun radix [c] [digit]
  | next {c : Char} {digit : ℕ} {text : List Char} {digits : List ℕ} :
      IsDigit radix c digit → PlainRun radix text digits →
        PlainRun radix (c :: text) (digit :: digits)

theorem value?_digitChar {radix value : ℕ} (hradix : radix ≤ 16)
    (h : value < radix) :
    value? radix (Nat.digitChar value) = some value ∧
      value? radix (Nat.digitChar value).toUpper = some value := by
  have hsmall : value < 16 := by omega
  unfold value?
  interval_cases value <;> simp [Nat.digitChar] <;> omega

theorem toNat_digitChar_letter {value : ℕ} (hten : 10 ≤ value)
    (hsmall : value < 16) :
    (Nat.digitChar value).toNat = value + 87 ∧
      (Nat.digitChar value).toUpper.toNat = value + 55 := by
  interval_cases value <;> exact ⟨rfl, rfl⟩

theorem value?_eq_some_iff {radix : ℕ} (hradix : radix ≤ 16) {c : Char}
    {value : ℕ} : value? radix c = some value ↔ IsDigit radix c value := by
  constructor
  · intro h
    have hlt := value?_lt h
    refine ⟨hlt, ?_⟩
    unfold value? at h
    simp only [Option.ite_none_right_eq_some, Option.some.injEq] at h
    obtain ⟨hsmall, heq⟩ := h
    have hbounds : ∀ a b : Char, a ≤ b ↔ a.toNat ≤ b.toNat := fun _ _ => Iff.rfl
    simp only [hbounds] at heq hsmall
    simp only [show '0'.toNat = 48 from rfl, show '9'.toNat = 57 from rfl,
      show 'a'.toNat = 97 from rfl, show 'z'.toNat = 122 from rfl,
      show 'A'.toNat = 65 from rfl, show 'Z'.toNat = 90 from rfl] at heq hsmall
    split at heq
    · left
      apply Char.toNat_inj.mp
      rw [Nat.toNat_digitChar_of_lt_ten (by omega)]
      omega
    · split at heq
      · left
        apply Char.toNat_inj.mp
        rw [(toNat_digitChar_letter (by omega) (by omega)).1]
        omega
      · split at heq
        · right
          apply Char.toNat_inj.mp
          rw [(toNat_digitChar_letter (by omega) (by omega)).2]
          omega
        · omega
  · rintro ⟨hlt, rfl | rfl⟩
    · exact (value?_digitChar hradix hlt).1
    · exact (value?_digitChar hradix hlt).2

@[simp] theorem value?_underscore (radix : ℕ) : value? radix '_' = none := by
  simp [value?]

@[simp] theorem value?_point (radix : ℕ) : value? radix '.' = none := by
  simp [value?]

/-- Between two digits the reader may stand before a digit or before the
underscore that goes with it. -/
theorem run_of_continuesRun {radix : ℕ} (hradix : radix ≤ 16)
    (text : List Char) :
    (continuesRun radix false text = true →
      Run radix text (text.filterMap (value? radix))) ∧
    (continuesRun radix true text = true →
      text = [] ∨ ∃ rest, (text = rest ∨ text = '_' :: rest) ∧
        Run radix rest (text.filterMap (value? radix))) := by
  -- The states of the reader take turns, so neither half goes through alone.
  induction text with
  | nil => exact ⟨fun h => (nomatch h), fun _ => Or.inl rfl⟩
  | cons c text ih =>
      have hdigit : (value? radix c).isSome = true →
          continuesRun radix true text = true →
          Run radix (c :: text) ((c :: text).filterMap (value? radix)) := by
        intro hsome hrest
        obtain ⟨digit, hvalue⟩ := Option.isSome_iff_exists.mp hsome
        rw [List.filterMap_cons_some hvalue]
        rw [value?_eq_some_iff hradix] at hvalue
        rcases ih.2 hrest with rfl | ⟨rest, rfl | rfl, hrun⟩
        · exact Run.single hvalue
        · exact Run.next hvalue hrun
        · rw [List.filterMap_cons_none (value?_underscore radix)] at hrun ⊢
          exact Run.separated hvalue hrun
      constructor
      · intro h
        rw [continuesRun] at h
        by_cases hc : c = '_'
        · simp [hc] at h
        · rw [if_neg hc, Bool.and_eq_true] at h
          exact hdigit h.1 h.2
      · intro h
        right
        rw [continuesRun] at h
        by_cases hc : c = '_'
        · rw [if_pos hc, Bool.true_and] at h
          subst hc
          refine ⟨text, Or.inr rfl, ?_⟩
          rw [List.filterMap_cons_none (value?_underscore radix)]
          exact ih.1 h
        · rw [if_neg hc, Bool.and_eq_true] at h
          exact ⟨c :: text, Or.inl rfl, hdigit h.1 h.2⟩

theorem Run.continuesRun {radix : ℕ} (hradix : radix ≤ 16) {text : List Char}
    {digits : List ℕ} (h : Run radix text digits) :
    (∀ afterDigit, continuesRun radix afterDigit text = true) ∧
      text.filterMap (value? radix) = digits := by
  have hne : ∀ {c : Char} {digit : ℕ}, value? radix c = some digit → c ≠ '_' := by
    rintro c digit hvalue rfl
    rw [value?_underscore] at hvalue
    exact nomatch hvalue
  induction h with
  | single hdigit =>
      rw [← value?_eq_some_iff hradix] at hdigit
      refine ⟨fun afterDigit => ?_, ?_⟩
      · rw [Digits.continuesRun, if_neg (hne hdigit), hdigit]
        rfl
      · rw [List.filterMap_cons_some hdigit, List.filterMap_nil]
  | next hdigit _ ih =>
      rw [← value?_eq_some_iff hradix] at hdigit
      refine ⟨fun afterDigit => ?_, ?_⟩
      · rw [Digits.continuesRun, if_neg (hne hdigit), hdigit]
        exact ih.1 true
      · rw [List.filterMap_cons_some hdigit, ih.2]
  | separated hdigit _ ih =>
      rw [← value?_eq_some_iff hradix] at hdigit
      refine ⟨fun afterDigit => ?_, ?_⟩
      · rw [Digits.continuesRun, if_neg (hne hdigit), hdigit,
          Digits.continuesRun, if_pos rfl]
        exact ih.1 false
      · rw [List.filterMap_cons_some hdigit,
          List.filterMap_cons_none (value?_underscore radix), ih.2]

/-- The reader of runs decides the grammar. -/
theorem ofRun?_eq_some_iff {radix : ℕ} (hradix : radix ≤ 16) {text : List Char}
    {digits : List ℕ} :
    ofRun? radix text = some digits ↔ Run radix text digits := by
  rw [ofRun?, isRun]
  constructor
  · intro h
    split at h
    · rename_i hrun
      cases h
      exact (run_of_continuesRun hradix text).1 hrun
    · exact nomatch h
  · intro h
    obtain ⟨hrun, hdigits⟩ := h.continuesRun hradix
    rw [if_pos (hrun false), hdigits]

theorem Run.unique {radix : ℕ} (hradix : radix ≤ 16) {text : List Char}
    {digits others : List ℕ} (h : Run radix text digits) (hother : Run radix text others) :
    others = digits := by
  rw [← ofRun?_eq_some_iff hradix] at h hother
  rw [h] at hother
  exact (Option.some.inj hother).symm

theorem Run.append {radix : ℕ} {front back : List Char} {digits others : List ℕ}
    (hfront : Run radix front digits) (hback : Run radix back others) :
    Run radix (front ++ back) (digits ++ others) := by
  induction hfront with
  | single hdigit => exact Run.next hdigit hback
  | next hdigit _ ih => exact Run.next hdigit ih
  | separated hdigit _ ih => exact Run.separated hdigit ih

theorem Run.append_separated {radix : ℕ} {front back : List Char}
    {digits others : List ℕ} (hfront : Run radix front digits)
    (hback : Run radix back others) :
    Run radix (front ++ '_' :: back) (digits ++ others) := by
  induction hfront with
  | single hdigit => exact Run.separated hdigit hback
  | next hdigit _ ih => exact Run.next hdigit ih
  | separated hdigit _ ih => exact Run.separated hdigit ih

theorem Run.ne_nil {radix : ℕ} {text : List Char} {digits : List ℕ}
    (h : Run radix text digits) : text ≠ [] := by
  cases h <;> exact List.cons_ne_nil _ _

theorem Run.length_le {radix : ℕ} {text : List Char} {digits : List ℕ}
    (h : Run radix text digits) : digits.length ≤ text.length := by
  induction h with
  | single => exact Nat.le_refl _
  | next _ _ ih => exact Nat.succ_le_succ ih
  | separated _ _ ih => exact Nat.succ_le_succ (Nat.le_succ_of_le ih)

theorem Run.digit_lt {radix : ℕ} {text : List Char} {digits : List ℕ}
    (h : Run radix text digits) : ∀ digit ∈ digits, digit < radix := by
  induction h with
  | single hdigit =>
      intro digit hmem
      rw [List.mem_singleton.mp hmem]
      exact hdigit.1
  | next hdigit _ ih | separated hdigit _ ih =>
      intro digit hmem
      rcases List.mem_cons.mp hmem with rfl | hmem
      · exact hdigit.1
      · exact ih digit hmem

theorem Run.mem {radix : ℕ} {text : List Char} {digits : List ℕ}
    (h : Run radix text digits) :
    ∀ c ∈ text, c = '_' ∨ ∃ digit, IsDigit radix c digit := by
  induction h with
  | single hdigit =>
      intro c hmem
      rw [List.mem_singleton.mp hmem]
      exact Or.inr ⟨_, hdigit⟩
  | next hdigit _ ih =>
      intro c hmem
      rcases List.mem_cons.mp hmem with rfl | hmem
      · exact Or.inr ⟨_, hdigit⟩
      · exact ih c hmem
  | separated hdigit _ ih =>
      intro c hmem
      rcases List.mem_cons.mp hmem with rfl | hmem
      · exact Or.inr ⟨_, hdigit⟩
      · rcases List.mem_cons.mp hmem with rfl | hmem
        · exact Or.inl rfl
        · exact ih c hmem

theorem Run.head_ne {radix : ℕ} (hradix : radix ≤ 16) {text : List Char}
    {digits : List ℕ} (h : Run radix text digits) (rest : List Char) :
    (text ++ rest).head? ≠ some '+' ∧ (text ++ rest).head? ≠ some '-' := by
  have hsign : ∀ {c : Char} {digit : ℕ}, IsDigit radix c digit → c ≠ '+' ∧ c ≠ '-' := by
    intro c digit hdigit
    rw [← value?_eq_some_iff hradix] at hdigit
    constructor
    · rintro rfl
      simp [value?] at hdigit
    · rintro rfl
      simp [value?] at hdigit
  have hhead : ∀ {c : Char} {digit : ℕ} (tail : List Char), IsDigit radix c digit →
      (c :: tail).head? ≠ some '+' ∧ (c :: tail).head? ≠ some '-' := by
    intro c digit tail hdigit
    obtain ⟨hplus, hminus⟩ := hsign hdigit
    exact ⟨fun heq => hplus (Option.some.inj heq), fun heq => hminus (Option.some.inj heq)⟩
  cases h with
  | single hdigit => exact hhead _ hdigit
  | next hdigit => exact hhead _ hdigit
  | separated hdigit => exact hhead _ hdigit

def dropSeparators (text : List Char) : List Char := text.filter (· != '_')

theorem IsDigit.ne_underscore {radix value : ℕ} (hradix : radix ≤ 16) {c : Char}
    (h : IsDigit radix c value) : c ≠ '_' := by
  rintro rfl
  rw [← value?_eq_some_iff hradix, value?_underscore] at h
  exact nomatch h

theorem Run.plainRun {radix : ℕ} (hradix : radix ≤ 16) {text : List Char}
    {digits : List ℕ} (h : Run radix text digits) :
    PlainRun radix (dropSeparators text) digits := by
  have hkeep : ∀ {c : Char} {digit : ℕ} (rest : List Char),
      IsDigit radix c digit →
        dropSeparators (c :: rest) = c :: dropSeparators rest := by
    intro c digit rest hdigit
    exact List.filter_cons_of_pos (by simpa using hdigit.ne_underscore hradix)
  induction h with
  | single hdigit =>
      rw [hkeep [] hdigit]
      exact PlainRun.single hdigit
  | next hdigit _ ih =>
      rw [hkeep _ hdigit]
      exact PlainRun.next hdigit ih
  | separated hdigit _ ih =>
      rw [hkeep _ hdigit]
      exact PlainRun.next hdigit ih

theorem PlainRun.run {radix : ℕ} {text : List Char} {digits : List ℕ}
    (h : PlainRun radix text digits) : Run radix text digits := by
  induction h with
  | single hdigit => exact Run.single hdigit
  | next hdigit _ ih => exact Run.next hdigit ih

end Digits

end WasmFloat
