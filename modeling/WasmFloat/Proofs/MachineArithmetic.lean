import WasmFloat.Proofs.SaturatedPacking

namespace WasmFloat

/-- What machine arithmetic may run into. -/
inductive Trap
  | overflow
  /-- A shift by as many places as a word has, or more. -/
  | shift
  /-- A set bit that is shifted out of its word. -/
  | lostBit
  /-- An exponent field that no normal number has. -/
  | field
deriving DecidableEq

namespace Trap

@[simp] theorem ok_bind {α β : Type} (a : α) (f : α → Except Trap β) :
    (Except.ok a >>= f) = f a := rfl

/-- A loop whose steps run through, each keeping to an exact step, runs through and keeps to
the exact loop. The relation may hang on how many steps were made. -/
theorem foldlM_eq_ok {α β γ : Type} {step : β → α → Except Trap β} {exact : γ → α → γ}
    {Tracks : ℕ → β → γ → Prop} {limit : ℕ} (xs : List α)
    (hstep : ∀ x ∈ xs, ∀ seen s t, seen < limit → Tracks seen s t →
      ∃ next, step s x = .ok next ∧ Tracks (seen + 1) next (exact t x))
    {seen : ℕ} {s : β} {t : γ} (hlimit : seen + xs.length ≤ limit) (h : Tracks seen s t) :
    ∃ last, xs.foldlM step s = .ok last ∧
      Tracks (seen + xs.length) last (xs.foldl exact t) := by
  induction xs generalizing seen s t with
  | nil => exact ⟨s, rfl, h⟩
  | cons x xs ih =>
      rw [List.length_cons, Nat.add_comm xs.length, ← Nat.add_assoc] at hlimit ⊢
      obtain ⟨next, hnext, htracks⟩ := hstep x List.mem_cons_self seen s t (by omega) h
      obtain ⟨last, hlast, hend⟩ :=
        ih (fun y hmem => hstep y (List.mem_cons_of_mem _ hmem)) hlimit htracks
      refine ⟨last, ?_, hend⟩
      rw [List.foldlM_cons, hnext, ok_bind, hlast]

end Trap

namespace Machine

def int (n : ℤ) : Except Trap Int64 :=
  if -2 ^ 63 ≤ n ∧ n < 2 ^ 63 then .ok (.ofInt n) else .error .overflow

def word (n : ℤ) : Except Trap UInt64 :=
  if 0 ≤ n ∧ n < 2 ^ 64 then .ok (.ofNat n.toNat) else .error .overflow

def count (n : ℤ) : Except Trap ℕ :=
  if 0 ≤ n then .ok n.toNat else .error .overflow

def add (a b : Int64) : Except Trap Int64 := int (a.toInt + b.toInt)

def sub (a b : Int64) : Except Trap Int64 := int (a.toInt - b.toInt)

def mul (a b : Int64) : Except Trap Int64 := int (a.toInt * b.toInt)

def neg (a : Int64) : Except Trap Int64 := int (-a.toInt)

def addWord (a b : UInt64) : Except Trap UInt64 := word (a.toNat + b.toNat)

def subWord (a b : UInt64) : Except Trap UInt64 := word (a.toNat - b.toNat)

def shiftLeft (word : UInt64) (shift : ℕ) : Except Trap UInt64 :=
  if shift < 64 then .ok (word <<< UInt64.ofNat shift) else .error .shift

def shiftRight (word : UInt64) (shift : ℕ) : Except Trap UInt64 :=
  if shift < 64 then .ok (word >>> UInt64.ofNat shift) else .error .shift

/-- A shift to the left that can be taken back. -/
def moveUp (word : UInt64) (shift : ℕ) : Except Trap UInt64 := do
  let moved ← shiftLeft word shift
  if moved >>> UInt64.ofNat shift = word then .ok moved else .error .lostBit

theorem int_eq_ok_iff {n : ℤ} {a : Int64} : int n = .ok a ↔ a.toInt = n := by
  rw [int]
  constructor
  · intro h
    split at h
    · rename_i hrange
      rw [← Except.ok.inj h, Int64.toInt_ofInt_of_le hrange.1 hrange.2]
    · exact nomatch h
  · rintro rfl
    rw [if_pos ⟨a.le_toInt, a.toInt_lt⟩, Int64.ofInt_toInt]

theorem exists_int_eq_ok {n m : ℤ} (h : n = m) (hle : -2 ^ 63 ≤ m) (hlt : m < 2 ^ 63) :
    ∃ a, int n = .ok a ∧ a.toInt = m := by
  subst h
  exact ⟨.ofInt n, if_pos ⟨hle, hlt⟩, Int64.toInt_ofInt_of_le hle hlt⟩

theorem word_eq_ok_iff {n : ℤ} {a : UInt64} : word n = .ok a ↔ (a.toNat : ℤ) = n := by
  have hlt := a.toNat_lt
  rw [word]
  constructor
  · intro h
    split at h
    · rename_i hrange
      rw [← Except.ok.inj h, UInt64.toNat_ofNat_of_lt' (by simp only [UInt64.size]; omega)]
      omega
    · exact nomatch h
  · rintro rfl
    rw [if_pos (by omega), Int.toNat_natCast, UInt64.ofNat_toNat]

theorem moveUp_eq_ok {word : UInt64} {shift : ℕ} (hshift : shift < 64)
    (hfits : word.toNat * 2 ^ shift < 2 ^ 64) :
    moveUp word shift = .ok (word <<< UInt64.ofNat shift) := by
  have hback : word <<< UInt64.ofNat shift >>> UInt64.ofNat shift = word := by
    rw [← UInt64.toNat_inj, Hexadecimal.toNat_shiftRight _ hshift,
      Hexadecimal.toNat_shiftLeft hshift hfits, Nat.mul_div_cancel _ (Nat.two_pow_pos shift)]
  rw [moveUp, shiftLeft, if_pos hshift, Trap.ok_bind, if_pos hback]

end Machine

end WasmFloat
