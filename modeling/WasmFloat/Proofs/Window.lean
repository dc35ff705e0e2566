import Mathlib.Algebra.Order.Field.Power
import Mathlib.Data.Rat.Cast.Order
import Mathlib.Tactic.NormNum
import Mathlib.Tactic.Positivity
import Mathlib.Tactic.Ring
import WasmFloat.Hexadecimal.Window

namespace WasmFloat.Hexadecimal.Window

theorem hasRoom_iff (window : Window) :
    window.hasRoom = true ↔ window.significand.toNat < 2 ^ 60 := by
  have hword := window.significand.toNat_lt
  rw [hasRoom, beq_iff_eq, ← UInt64.toNat_inj, UInt64.toNat_shiftRight,
    show (60 : UInt64).toNat % 64 = 60 from rfl, Nat.shiftRight_eq_div_pow,
    show (0 : UInt64).toNat = 0 from rfl]
  omega

theorem toNat_append {window : Window} (hroom : window.hasRoom = true)
    {digit : ℕ} (hdigit : digit < 16) :
    (window.append digit).toNat = 16 * window.significand.toNat + digit := by
  rw [hasRoom_iff] at hroom
  have hshift : (window.significand <<< 4).toNat =
      window.significand.toNat <<< 4 := by
    rw [UInt64.toNat_shiftLeft, show (4 : UInt64).toNat % 64 = 4 from rfl,
      Nat.shiftLeft_eq]
    omega
  have hlow : (UInt64.ofNat digit).toNat = digit := by
    rw [UInt64.toNat_ofNat']
    omega
  rw [append, UInt64.toNat_or, hshift, hlow,
    ← Nat.shiftLeft_add_eq_or_of_lt (by omega), Nat.shiftLeft_eq]
  omega

/-- The window after the digits of `coefficient`, of which `point` stand after
the point. All but the last `dropped` of them are in the word. -/
structure Gathers (window : Window) (coefficient point dropped : ℕ) : Prop where
  significand : window.significand.toNat = coefficient / 16 ^ dropped
  sticky : window.sticky = true ↔ coefficient % 16 ^ dropped ≠ 0
  shift : window.shift = 4 * (dropped : ℤ) - 4 * (point : ℤ)
  full : 0 < dropped → 2 ^ 60 ≤ window.significand.toNat

theorem gathers_empty : empty.Gathers 0 0 0 := by
  refine ⟨rfl, ⟨nofun, fun h => absurd rfl h⟩, rfl, nofun⟩

theorem Gathers.dropped_eq_zero {window : Window} {coefficient point dropped : ℕ}
    (h : window.Gathers coefficient point dropped)
    (hroom : window.hasRoom = true) : dropped = 0 := by
  rw [hasRoom_iff] at hroom
  by_contra hne
  have hfull := h.full (Nat.pos_of_ne_zero hne)
  omega

theorem Gathers.enter {window next : Window} {coefficient point dropped : ℕ}
    {digit : ℕ} (after : ℕ) (h : window.Gathers coefficient point dropped)
    (hroom : window.hasRoom = true) (hdigit : digit < 16)
    (hword : next.significand = window.append digit)
    (hsticky : next.sticky = window.sticky)
    (hshift : next.shift = window.shift - 4 * (after : ℤ)) :
    next.Gathers (16 * coefficient + digit) (point + after) 0 := by
  have hzero := h.dropped_eq_zero hroom
  subst hzero
  have hsignificand := h.significand
  rw [Nat.pow_zero, Nat.div_one] at hsignificand
  refine ⟨?_, ?_, ?_, nofun⟩
  · rw [hword, toNat_append hroom hdigit, hsignificand, Nat.pow_zero, Nat.div_one]
  · rw [hsticky, h.sticky, Nat.pow_zero, Nat.mod_one, Nat.mod_one]
  · rw [hshift, h.shift]
    omega

theorem Gathers.pass {window next : Window} {coefficient point dropped : ℕ}
    {digit : ℕ} (after : ℕ) (h : window.Gathers coefficient point dropped)
    (hroom : ¬ window.hasRoom = true) (hdigit : digit < 16)
    (hword : next.significand = window.significand)
    (hsticky : next.sticky = (window.sticky || digit != 0))
    (hshift : next.shift = window.shift + 4 - 4 * (after : ℤ)) :
    next.Gathers (16 * coefficient + digit) (point + after) (dropped + 1) := by
  have hquotient : (16 * coefficient + digit) / 16 ^ (dropped + 1) =
      coefficient / 16 ^ dropped := by
    rw [Nat.pow_succ', ← Nat.div_div_eq_div_mul]
    congr 1
    omega
  have hremainder : (16 * coefficient + digit) % 16 ^ (dropped + 1) =
      16 * (coefficient % 16 ^ dropped) + digit := by
    rw [Nat.pow_succ', Nat.mod_mul, Nat.mul_add_mod, Nat.mod_eq_of_lt hdigit,
      show (16 * coefficient + digit) / 16 = coefficient by omega]
    omega
  refine ⟨?_, ?_, ?_, fun _ => ?_⟩
  · rw [hword, hquotient, h.significand]
  · rw [hsticky, hremainder, Bool.or_eq_true, h.sticky, bne_iff_ne]
    omega
  · rw [hshift, h.shift]
    omega
  · rw [hasRoom_iff] at hroom
    rw [hword]
    exact Nat.le_of_not_lt hroom

theorem Gathers.pushInteger {window : Window} {coefficient point dropped digit : ℕ}
    (h : window.Gathers coefficient point dropped) (hdigit : digit < 16) :
    ∃ dropped, (window.pushInteger digit).Gathers (16 * coefficient + digit)
      point dropped := by
  unfold Window.pushInteger
  split
  · rename_i hroom
    exact ⟨0, Gathers.enter 0 h hroom hdigit rfl rfl (by simp)⟩
  · rename_i hroom
    exact ⟨dropped + 1, Gathers.pass 0 h hroom hdigit rfl rfl (by simp)⟩

theorem Gathers.pushFraction {window : Window} {coefficient point dropped digit : ℕ}
    (h : window.Gathers coefficient point dropped) (hdigit : digit < 16) :
    ∃ dropped, (window.pushFraction digit).Gathers (16 * coefficient + digit)
      (point + 1) dropped := by
  unfold Window.pushFraction
  split
  · rename_i hroom
    exact ⟨0, Gathers.enter 1 h hroom hdigit rfl rfl (by simp)⟩
  · rename_i hroom
    exact ⟨dropped + 1, Gathers.pass 1 h hroom hdigit rfl rfl (by simp)⟩

theorem Gathers.foldl_pushInteger {digits : List ℕ}
    (hdigits : ∀ digit ∈ digits, digit < 16) {window : Window}
    {coefficient point dropped : ℕ}
    (h : window.Gathers coefficient point dropped) :
    ∃ dropped, (digits.foldl Window.pushInteger window).Gathers
      (digits.foldl (fun value digit => 16 * value + digit) coefficient)
      point dropped := by
  induction digits generalizing window coefficient dropped with
  | nil => exact ⟨dropped, h⟩
  | cons digit digits ih =>
      obtain ⟨dropped, hnext⟩ :=
        h.pushInteger (hdigits digit List.mem_cons_self)
      exact ih (fun digit hmem => hdigits digit (List.mem_cons_of_mem _ hmem)) hnext

theorem Gathers.foldl_pushFraction {digits : List ℕ}
    (hdigits : ∀ digit ∈ digits, digit < 16) {window : Window}
    {coefficient point dropped : ℕ}
    (h : window.Gathers coefficient point dropped) :
    ∃ dropped, (digits.foldl Window.pushFraction window).Gathers
      (digits.foldl (fun value digit => 16 * value + digit) coefficient)
      (point + digits.length) dropped := by
  induction digits generalizing window coefficient point dropped with
  | nil => exact ⟨dropped, h⟩
  | cons digit digits ih =>
      obtain ⟨dropped, hnext⟩ :=
        h.pushFraction (hdigits digit List.mem_cons_self)
      rw [List.length_cons, Nat.add_comm digits.length, ← Nat.add_assoc]
      exact ih (fun digit hmem => hdigits digit (List.mem_cons_of_mem _ hmem)) hnext

theorem gathers_ofDigits {integer fraction : List ℕ}
    (hinteger : ∀ digit ∈ integer, digit < 16)
    (hfraction : ∀ digit ∈ fraction, digit < 16) :
    ∃ dropped, (ofDigits integer fraction).Gathers
      (Digits.toNat 16 (integer ++ fraction)) fraction.length dropped := by
  obtain ⟨dropped, hfront⟩ := gathers_empty.foldl_pushInteger hinteger
  obtain ⟨dropped, hall⟩ := hfront.foldl_pushFraction hfraction
  rw [Nat.zero_add] at hall
  rw [Digits.toNat, List.foldl_append]
  exact ⟨dropped, hall⟩

/-- The number `q` is what a window stands for, `tail` being the part of it
below the word. -/
structure Represents (window : Window) (q tail : ℚ) : Prop where
  value : q = (window.significand.toNat + tail) * 2 ^ window.shift
  tail_nonneg : 0 ≤ tail
  tail_lt : tail < 1
  sticky : window.sticky = true ↔ 0 < tail
  full : window.sticky = true → 2 ^ 60 ≤ window.significand.toNat

theorem sixteen_zpow (n : ℤ) : (16 : ℚ) ^ n = 2 ^ (4 * n) := by
  rw [zpow_mul]
  norm_num

theorem Gathers.represents {window : Window} {coefficient point dropped : ℕ}
    (h : window.Gathers coefficient point dropped) :
    window.Represents (coefficient * 16 ^ (-(point : ℤ)))
      ((coefficient % 16 ^ dropped : ℕ) / 16 ^ dropped) := by
  have hpos : (0 : ℚ) < 16 ^ dropped := by positivity
  have hmod : coefficient % 16 ^ dropped < 16 ^ dropped :=
    Nat.mod_lt _ (Nat.pow_pos (by decide))
  have hsplit := Nat.div_add_mod coefficient (16 ^ dropped)
  refine ⟨?_, by positivity, ?_, ?_, fun hsticky => ?_⟩
  · have hscale : (2 : ℚ) ^ window.shift = 16 ^ dropped * 16 ^ (-(point : ℤ)) := by
      rw [h.shift, ← zpow_natCast, ← zpow_add₀ (by decide), sixteen_zpow]
      congr 1
      ring
    have hcoefficient : (coefficient : ℚ) =
        16 ^ dropped * (coefficient / 16 ^ dropped : ℕ) +
          (coefficient % 16 ^ dropped : ℕ) := by
      exact_mod_cast hsplit.symm
    rw [hscale, h.significand, ← mul_assoc, add_mul, div_mul_cancel₀ _ hpos.ne',
      mul_comm _ ((16 : ℚ) ^ dropped), ← hcoefficient]
  · rw [div_lt_one hpos]
    exact_mod_cast hmod
  · rw [h.sticky, div_pos_iff_of_pos_right hpos, Nat.cast_pos]
    omega
  · apply h.full
    rw [h.sticky] at hsticky
    by_contra hzero
    rw [show dropped = 0 by omega, Nat.pow_zero, Nat.mod_one] at hsticky
    exact hsticky rfl

theorem Represents.scale {window : Window} {q tail : ℚ}
    (h : window.Represents q tail) (exponent : ℤ) :
    (window.scale exponent).Represents (q * 2 ^ exponent) tail := by
  refine ⟨?_, h.tail_nonneg, h.tail_lt, h.sticky, h.full⟩
  rw [h.value, mul_assoc, ← zpow_add₀ (by decide)]
  rfl

end WasmFloat.Hexadecimal.Window
