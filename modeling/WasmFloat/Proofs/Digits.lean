import Mathlib.Tactic.Ring
import WasmFloat.Digits

namespace WasmFloat.Digits

/-- Digits before others count by the power of the radix that these leave. -/
theorem toNat_append (radix : Nat) (front back : List Nat) :
    toNat radix (front ++ back) =
      toNat radix front * radix ^ back.length + toNat radix back := by
  have hstart : ∀ (digits : List Nat) (start : Nat),
      digits.foldl (fun value digit => radix * value + digit) start =
        start * radix ^ digits.length + toNat radix digits := by
    intro digits
    induction digits with
    | nil => simp [toNat]
    | cons digit digits ih =>
        intro start
        unfold toNat
        rw [List.foldl_cons, List.foldl_cons, ih, ih (radix * 0 + digit),
          List.length_cons, Nat.pow_succ, Nat.add_mul, Nat.mul_zero, Nat.zero_add,
          Nat.mul_comm radix start, Nat.mul_assoc, Nat.mul_comm radix]
        exact Nat.add_assoc _ _ _
  unfold toNat
  rw [List.foldl_append, hstart back]
  rfl

theorem toNat_singleton (radix digit : Nat) : toNat radix [digit] = digit := by
  simp [toNat]

theorem toNat_cons (radix digit : Nat) (digits : List Nat) :
    toNat radix (digit :: digits) =
      digit * radix ^ digits.length + toNat radix digits := by
  rw [← List.singleton_append, toNat_append, toNat_singleton]

theorem toNat_concat (radix : Nat) (digits : List Nat) (digit : Nat) :
    toNat radix (digits ++ [digit]) = toNat radix digits * radix + digit := by
  rw [toNat_append, toNat_singleton, List.length_singleton, Nat.pow_one]

theorem toNat_lt {radix : Nat} {digits : List Nat}
    (h : ∀ digit ∈ digits, digit < radix) :
    toNat radix digits < radix ^ digits.length := by
  induction digits with
  | nil => exact Nat.one_pos
  | cons digit digits ih =>
      have hrest := ih fun other hmem => h other (List.mem_cons_of_mem _ hmem)
      have hhead := h digit List.mem_cons_self
      rw [toNat_cons, List.length_cons]
      calc digit * radix ^ digits.length + toNat radix digits
          < digit * radix ^ digits.length + radix ^ digits.length :=
            Nat.add_lt_add_left hrest _
        _ = (digit + 1) * radix ^ digits.length := by ring
        _ ≤ radix * radix ^ digits.length := Nat.mul_le_mul_right _ hhead
        _ = radix ^ (digits.length + 1) := by rw [Nat.pow_succ']

theorem pow_le_toNat {radix digit : Nat} (h : digit ≠ 0) (digits : List Nat) :
    radix ^ digits.length ≤ toNat radix (digit :: digits) := by
  rw [toNat_cons]
  exact Nat.le_add_right_of_le (Nat.le_mul_of_pos_left _ (Nat.pos_of_ne_zero h))

theorem not_dvd_toNat {radix digit : Nat} (hne : digit ≠ 0) (hlt : digit < radix)
    (digits : List Nat) : ¬ radix ∣ toNat radix (digits ++ [digit]) := by
  rw [toNat_concat, Nat.dvd_add_right (Nat.dvd_mul_left _ _)]
  exact Nat.not_dvd_of_pos_of_lt (Nat.pos_of_ne_zero hne) hlt

/-- As many digits with the same number are the same digits. -/
theorem eq_of_toNat_eq {radix : Nat} {digits others : List Nat}
    (hdigits : ∀ digit ∈ digits, digit < radix) (hothers : ∀ digit ∈ others, digit < radix)
    (hlength : others.length = digits.length)
    (hvalue : toNat radix others = toNat radix digits) : others = digits := by
  induction digits generalizing others with
  | nil => exact List.length_eq_zero_iff.mp hlength
  | cons digit digits ih =>
      cases others with
      | nil => exact nomatch hlength
      | cons other others =>
          have hrest := Nat.succ.inj hlength
          have hlt := toNat_lt fun d hmem => hdigits d (List.mem_cons_of_mem _ hmem)
          have hotherLt := toNat_lt fun d hmem => hothers d (List.mem_cons_of_mem _ hmem)
          rw [hrest] at hotherLt
          rw [toNat_cons, toNat_cons, hrest] at hvalue
          have hpos : 0 < radix ^ digits.length := Nat.zero_lt_of_lt hlt
          have hhead := congrArg (· / radix ^ digits.length) hvalue
          have htail := congrArg (· % radix ^ digits.length) hvalue
          simp only [Nat.mul_add_mod_self_right, Nat.mod_eq_of_lt hlt,
            Nat.mod_eq_of_lt hotherLt] at htail
          simp only [Nat.mul_comm _ (radix ^ digits.length), Nat.mul_add_div hpos,
            Nat.div_eq_of_lt hlt, Nat.div_eq_of_lt hotherLt, Nat.add_zero] at hhead
          rw [hhead, ih (fun d hmem => hdigits d (List.mem_cons_of_mem _ hmem))
            (fun d hmem => hothers d (List.mem_cons_of_mem _ hmem)) hrest htail]

end WasmFloat.Digits
