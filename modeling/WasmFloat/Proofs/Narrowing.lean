import WasmFloat.Item.Encoder
import WasmFloat.Proofs.Integers

namespace WasmFloat

namespace Format

theorem infinity_lt_signBit (F : Format) : F.infinity < F.signBit := by
  rw [infinity, signBit, hiddenBit, Nat.one_shiftLeft, Nat.one_shiftLeft,
    Nat.one_shiftLeft, Nat.pow_add]
  apply Nat.mul_lt_mul_of_pos_right _ (Nat.two_pow_pos _)
  exact Nat.sub_lt (Nat.two_pow_pos _) Nat.one_pos

theorem word_lt (F : Format) (negative : Bool) {pattern : ℕ}
    (h : pattern ≤ F.infinity) : F.word negative pattern < 2 * F.signBit := by
  have hlt := F.infinity_lt_signBit
  unfold word
  split <;> omega

theorem sign_word (F : Format) (negative : Bool) {pattern : ℕ}
    (h : pattern ≤ F.infinity) :
    decide (F.signBit ≤ F.word negative pattern) = negative := by
  have hlt := F.infinity_lt_signBit
  cases negative with
  | false =>
      rw [word, if_neg Bool.false_ne_true, decide_eq_false_iff_not]
      omega
  | true =>
      rw [word, if_pos rfl, decide_eq_true_iff]
      omega

theorem word_mod (F : Format) (negative : Bool) {pattern : ℕ}
    (h : pattern ≤ F.infinity) : F.word negative pattern % F.signBit = pattern := by
  have hlt := F.infinity_lt_signBit
  have hmod : pattern % F.signBit = pattern := Nat.mod_eq_of_lt (by omega)
  cases negative with
  | false => rw [word, if_neg Bool.false_ne_true, Nat.zero_add, hmod]
  | true => rw [word, if_pos rfl, Nat.add_mod_left, hmod]

theorem pattern?_eq_some {F : Format} {units drop pattern : ℕ}
    (h : F.pattern? units drop = some pattern) :
    pattern < F.infinity ∧ F.units pattern <<< drop = units := by
  unfold pattern? at h
  simp only [Option.ite_none_right_eq_some, Option.some.injEq] at h
  obtain ⟨hpattern, rfl⟩ := h
  exact hpattern

end Format

namespace Binary64

theorem widen_of_narrow? {F : Format} {x : Binary64} {word : ℕ}
    (h : x.narrow? F = some word) :
    widen F word = x ∧ word < 2 * F.signBit := by
  unfold narrow? at h
  split at h
  · rename_i hinfinite
    rw [isInfinite_iff] at hinfinite
    rw [← Option.some.inj h]
    refine ⟨?_, F.word_lt _ le_rfl⟩
    unfold widen
    simp only [F.sign_word _ le_rfl, F.word_mod _ le_rfl, lt_irrefl, if_false,
      if_true]
    rw [← hinfinite, ofMagnitude_fields]
  · split at h
    · rename_i hfinite
      obtain ⟨pattern, hpattern, rfl⟩ := Option.map_eq_some_iff.mp h
      obtain ⟨hlt, hunits⟩ := Format.pattern?_eq_some hpattern
      refine ⟨?_, F.word_lt _ hlt.le⟩
      unfold widen
      simp only [F.sign_word _ hlt.le, F.word_mod _ hlt.le]
      rw [if_pos hlt, rounded_of_units hfinite hunits, ofMagnitude_fields]
    · exact nomatch h

end Binary64

end WasmFloat
