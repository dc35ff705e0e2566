import Mathlib.Algebra.Order.Field.Power
import Mathlib.Data.List.Induction
import Mathlib.Data.Nat.Digits.Defs
import Mathlib.Data.Rat.Cast.Order
import Mathlib.Tactic.FieldSimp
import WasmFloat.Proofs.Digits
import WasmFloat.Proofs.Runs

namespace WasmFloat

namespace Digits

def spell (digits : List ℕ) : List Char := digits.map Nat.digitChar

theorem spell_append (front back : List ℕ) :
    spell (front ++ back) = spell front ++ spell back := by
  simp [spell]

theorem spell_replicate_zero (count : ℕ) :
    spell (List.replicate count 0) = List.replicate count '0' := by
  simp [spell, Nat.digitChar]

theorem run_spell {radix : ℕ} {digits : List ℕ} (hne : digits ≠ [])
    (h : ∀ digit ∈ digits, digit < radix) : Run radix (spell digits) digits := by
  induction digits with
  | nil => exact absurd rfl hne
  | cons digit digits ih =>
      have hdigit : IsDigit radix (Nat.digitChar digit) digit :=
        ⟨h digit List.mem_cons_self, Or.inl rfl⟩
      cases digits with
      | nil => exact Run.single hdigit
      | cons other digits =>
          refine Run.next hdigit (ih (List.cons_ne_nil _ _) ?_)
          intro digit hmem
          exact h digit (List.mem_cons_of_mem _ hmem)

theorem run_zeros {radix : ℕ} (hradix : 0 < radix) (count : ℕ) :
    Run radix (List.replicate (count + 1) '0') (List.replicate (count + 1) 0) := by
  rw [← spell_replicate_zero]
  refine run_spell (by simp) fun digit hmem => ?_
  rw [List.eq_of_mem_replicate hmem]
  exact hradix

theorem exists_text {radix : ℕ} (hradix : 1 < radix) (n : ℕ) :
    ∃ digits, text radix n = spell digits ∧ digits ≠ [] ∧
      (∀ digit ∈ digits, digit < radix) ∧ toNat radix digits = n := by
  -- The induction takes the last digit off.
  induction n using Nat.strongRecOn with
  | ind n ih =>
      rcases Nat.lt_or_ge n radix with hlt | hge
      · refine ⟨[n], Nat.toDigits_of_lt_base hlt, List.cons_ne_nil _ _, ?_, ?_⟩
        · intro digit hmem
          rw [List.mem_singleton.mp hmem]
          exact hlt
        · simp [toNat]
      · have hpos : 0 < n := by omega
        obtain ⟨digits, htext, _, hdigits, hvalue⟩ :=
          ih (n / radix) (Nat.div_lt_self hpos hradix)
        refine ⟨digits ++ [n % radix], ?_, by simp, ?_, ?_⟩
        · rw [spell_append, ← htext]
          exact Nat.toDigits_of_base_le hradix hge
        · intro digit hmem
          rcases List.mem_append.mp hmem with hmem | hmem
          · exact hdigits digit hmem
          · rw [List.mem_singleton.mp hmem]
            exact Nat.mod_lt n (by omega)
        · rw [toNat_concat, hvalue]
          exact Nat.div_add_mod' n radix

/-- The first digit is zero only if the number is. -/
theorem head?_of_text {n : ℕ} {digits : List ℕ} (htext : text 10 n = spell digits)
    (hdigits : ∀ digit ∈ digits, digit < 10) (hvalue : toNat 10 digits = n)
    (hne : n ≠ 0) : digits.head? ≠ some 0 := by
  intro hzero
  obtain ⟨rest, rfl⟩ := List.head?_eq_some_iff.mp hzero
  have hrest : n < 10 ^ rest.length := by
    rw [← hvalue, toNat_cons, Nat.zero_mul, Nat.zero_add]
    exact toNat_lt fun digit hmem => hdigits digit (List.mem_cons_of_mem _ hmem)
  have hlength : (text 10 n).length = rest.length + 1 := by
    rw [htext, spell, List.length_map, List.length_cons]
  rcases Nat.eq_zero_or_pos rest.length with hnone | hpos
  · rw [hnone, Nat.pow_zero, Nat.lt_one_iff] at hrest
    exact hne hrest
  · have hle := (Nat.length_toDigits_le_iff (by decide) hpos).mpr hrest
    rw [show Nat.toDigits 10 n = text 10 n from rfl, hlength] at hle
    omega

theorem toNat_zeros (radix count : ℕ) : toNat radix (List.replicate count 0) = 0 := by
  induction count with
  | zero => rfl
  | succ count ih =>
      rw [List.replicate_succ', toNat_concat, ih, Nat.zero_mul]

def padded (front back : ℕ) (digits : List ℕ) : List ℕ :=
  List.replicate front 0 ++ digits ++ List.replicate back 0

theorem length_padded (front back : ℕ) (digits : List ℕ) :
    (padded front back digits).length = front + digits.length + back := by
  simp [padded, Nat.add_assoc]

theorem padded_lt {radix : ℕ} (hradix : 0 < radix) (front back : ℕ) {digits : List ℕ}
    (h : ∀ digit ∈ digits, digit < radix) :
    ∀ digit ∈ padded front back digits, digit < radix := by
  intro digit hmem
  simp only [padded, List.mem_append, List.mem_replicate] at hmem
  rcases hmem with (⟨_, rfl⟩ | hmem) | ⟨_, rfl⟩
  · exact hradix
  · exact h digit hmem
  · exact hradix

theorem spell_padded (front back : ℕ) (digits : List ℕ) :
    spell (padded front back digits) =
      List.replicate front '0' ++ spell digits ++ List.replicate back '0' := by
  rw [padded, spell_append, spell_append, spell_replicate_zero, spell_replicate_zero]

theorem toNat_padded (radix front back : ℕ) (digits : List ℕ) :
    toNat radix (padded front back digits) = toNat radix digits * radix ^ back := by
  rw [padded, toNat_append, toNat_append, toNat_zeros, toNat_zeros, Nat.zero_mul,
    Nat.zero_add, Nat.add_zero, List.length_replicate]

theorem dropTrailingZeros_spell (digits : List ℕ) :
    ∃ front count, digits = front ++ List.replicate count 0 ∧
      dropTrailingZeros (spell digits) = spell front ∧ front.getLast? ≠ some 0 := by
  induction digits using List.reverseRecOn with
  | nil => exact ⟨[], 0, rfl, rfl, nofun⟩
  | append_singleton digits digit ih =>
      obtain ⟨front, count, hdigits, hdrop, hlast⟩ := ih
      by_cases hzero : digit = 0
      · refine ⟨front, count + 1, ?_, ?_, hlast⟩
        · rw [hzero, hdigits, List.replicate_succ', List.append_assoc]
        · rw [← hdrop, hzero]
          simp [dropTrailingZeros, spell, Nat.digitChar]
      · refine ⟨digits ++ [digit], 0, by simp, ?_, ?_⟩
        · simp [dropTrailingZeros, spell, hzero]
        · simp [hzero]

theorem toNat_append_zeros {radix : ℕ} (hradix : 0 < radix) (digits : List ℕ)
    (places count : ℕ) :
    (toNat radix (digits ++ List.replicate count 0) : ℚ) *
        (radix : ℚ) ^ (-((places + count : ℕ) : ℤ)) =
      toNat radix digits * (radix : ℚ) ^ (-(places : ℤ)) := by
  have hbase : (radix : ℚ) ≠ 0 := by exact_mod_cast hradix.ne'
  have hpow : (radix : ℚ) ^ count ≠ 0 := pow_ne_zero _ hbase
  rw [toNat_append, toNat_zeros, Nat.add_zero, List.length_replicate, Nat.cast_mul,
    Nat.cast_pow, Nat.cast_add, neg_add, zpow_add₀ hbase, zpow_neg _ (count : ℤ),
    zpow_natCast]
  field_simp

theorem exists_paddedText {radix width n : ℕ} (hradix : 1 < radix)
    (hwidth : 0 < width) (h : n < radix ^ width) :
    ∃ digits, paddedText radix width n = spell digits ∧ digits.length = width ∧
      (∀ digit ∈ digits, digit < radix) ∧ toNat radix digits = n := by
  obtain ⟨digits, htext, _, hdigits, hvalue⟩ := exists_text hradix n
  have hlength : digits.length ≤ width := by
    have hfits := Nat.toDigits_length radix n width hwidth h
    rw [show Nat.toDigits radix n = spell digits from htext, spell,
      List.length_map] at hfits
    exact hfits
  refine ⟨padded (width - digits.length) 0 digits, ?_, ?_,
    padded_lt (by omega) _ 0 hdigits, ?_⟩
  · rw [paddedText, htext, List.leftpad, spell_padded]
    simp only [spell, List.length_map, List.replicate_zero, List.append_nil]
  · rw [length_padded]
    omega
  · rw [toNat_padded, Nat.pow_zero, Nat.mul_one, hvalue]

end Digits

end WasmFloat
