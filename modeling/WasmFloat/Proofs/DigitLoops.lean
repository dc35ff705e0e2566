import WasmFloat.Proofs.MachineArithmetic

namespace WasmFloat.Hexadecimal

structure MachineWindow where
  significand : UInt64
  shift : Int64
  sticky : Bool
deriving DecidableEq

namespace MachineWindow

def empty : MachineWindow := ⟨0, 0, false⟩

def exact (window : MachineWindow) : Window :=
  ⟨window.significand, window.shift.toInt, window.sticky⟩

/-- The word with one more digit below its bits, all of which are kept. -/
def append (window : MachineWindow) (digit : ℕ) : Except Trap UInt64 := do
  let moved ← Machine.moveUp window.significand 4
  return moved ||| UInt64.ofNat digit

def pushInteger (window : MachineWindow) (digit : ℕ) : Except Trap MachineWindow :=
  if window.exact.hasRoom then do
    let significand ← window.append digit
    return { window with significand }
  else do
    let shift ← Machine.add window.shift 4
    return { window with shift, sticky := window.sticky || digit != 0 }

def pushFraction (window : MachineWindow) (digit : ℕ) : Except Trap MachineWindow :=
  if window.exact.hasRoom then do
    let significand ← window.append digit
    let shift ← Machine.sub window.shift 4
    return { window with significand, shift }
  else
    return { window with sticky := window.sticky || digit != 0 }

def ofDigits (integer fraction : List ℕ) : Except Trap MachineWindow := do
  let window ← integer.foldlM pushInteger empty
  fraction.foldlM pushFraction window

theorem append_eq_ok {window : MachineWindow} (hroom : window.exact.hasRoom = true)
    (digit : ℕ) : window.append digit = .ok (window.exact.append digit) := by
  rw [Window.hasRoom_iff] at hroom
  have hsmall : window.significand.toNat < 2 ^ 60 := hroom
  rw [append, Machine.moveUp_eq_ok (by decide) (by omega), Trap.ok_bind]
  rfl

/-- A machine window after so many digits. Each of them moves the shift by four places at
most. -/
structure Tracks (seen : ℕ) (machine : MachineWindow) (window : Window) : Prop where
  exact : machine.exact = window
  shift_le : machine.shift.toInt.natAbs ≤ 4 * seen

theorem tracks_empty : Tracks 0 empty Window.empty := ⟨rfl, Nat.le_refl 0⟩

theorem Tracks.pushInteger {seen : ℕ} {machine : MachineWindow} {window : Window}
    (h : Tracks seen machine window) (hseen : seen < 2 ^ 60) (digit : ℕ) :
    ∃ next, machine.pushInteger digit = .ok next ∧
      Tracks (seen + 1) next (window.pushInteger digit) := by
  obtain ⟨rfl, hshift⟩ := h
  unfold MachineWindow.pushInteger Window.pushInteger
  split
  · rename_i hroom
    rw [append_eq_ok hroom]
    exact ⟨_, rfl, rfl, by simp only; omega⟩
  · obtain ⟨shift, hadd, hvalue⟩ : ∃ shift, Machine.add machine.shift 4 = .ok shift ∧
        shift.toInt = machine.shift.toInt + 4 :=
      Machine.exists_int_eq_ok rfl (by omega) (by omega)
    rw [hadd]
    refine ⟨_, rfl, ?_, ?_⟩
    · simp only [MachineWindow.exact, hvalue]
    · simp only
      omega

theorem Tracks.pushFraction {seen : ℕ} {machine : MachineWindow} {window : Window}
    (h : Tracks seen machine window) (hseen : seen < 2 ^ 60) (digit : ℕ) :
    ∃ next, machine.pushFraction digit = .ok next ∧
      Tracks (seen + 1) next (window.pushFraction digit) := by
  obtain ⟨rfl, hshift⟩ := h
  unfold MachineWindow.pushFraction Window.pushFraction
  split
  · rename_i hroom
    obtain ⟨shift, hsub, hvalue⟩ : ∃ shift, Machine.sub machine.shift 4 = .ok shift ∧
        shift.toInt = machine.shift.toInt - 4 :=
      Machine.exists_int_eq_ok rfl (by omega) (by omega)
    rw [append_eq_ok hroom, Trap.ok_bind, hsub]
    refine ⟨_, rfl, ?_, ?_⟩
    · simp only [MachineWindow.exact, hvalue]
    · simp only
      omega
  · exact ⟨_, rfl, rfl, by simp only; omega⟩

/-- No step of the loops goes wrong, and the shift stays far within its type. -/
theorem exists_ofDigits_eq_ok {integer fraction : List ℕ}
    (hlength : integer.length + fraction.length < 2 ^ 60) :
    ∃ window, ofDigits integer fraction = .ok window ∧
      Tracks (integer.length + fraction.length) window (Window.ofDigits integer fraction) := by
  obtain ⟨middle, hinteger, hmiddle⟩ := Trap.foldlM_eq_ok integer
    (fun digit _ _ _ _ hseen h => h.pushInteger hseen digit) (by omega) tracks_empty
  rw [Nat.zero_add] at hmiddle
  obtain ⟨window, hfraction, hwindow⟩ := Trap.foldlM_eq_ok fraction
    (fun digit _ _ _ _ hseen h => h.pushFraction hseen digit) hlength.le hmiddle
  refine ⟨window, ?_, hwindow⟩
  rw [ofDigits, hinteger, Trap.ok_bind, hfraction]

/-- The digit loops run through and lose nothing of the digits but a part below the word,
which the sticky flag stands for. -/
theorem ofDigits_losesOnlyTail {integer fraction : List ℕ}
    (hdigits : ∀ digit ∈ integer ++ fraction, digit < 16)
    (hlength : integer.length + fraction.length < 2 ^ 60) :
    ∃ window tail, ofDigits integer fraction = .ok window ∧
      window.exact = Window.ofDigits integer fraction ∧
      window.exact.Represents (Digits.toNat 16 (integer ++ fraction) *
        16 ^ (-(fraction.length : ℤ))) tail := by
  obtain ⟨window, hwindow, htracks⟩ := exists_ofDigits_eq_ok hlength
  obtain ⟨dropped, hgathers⟩ := Window.gathers_ofDigits
    (fun digit hmem => hdigits digit (List.mem_append_left _ hmem))
    (fun digit hmem => hdigits digit (List.mem_append_right _ hmem))
  have hrepresents := hgathers.represents
  rw [← htracks.exact] at hrepresents
  exact ⟨window, _, hwindow, htracks.exact, hrepresents⟩

/-- The word is full at the point, and what follows it is a one behind zeros. -/
theorem ofDigits_losesOnlyTail_full :
    (∀ digit ∈ [1, 0, 0, 0, 0, 0, 0, 0, 0, 0, 0, 0, 0, 0, 0, 0] ++ [0, 0, 1], digit < 16) ∧
      ∃ window tail, ofDigits [1, 0, 0, 0, 0, 0, 0, 0, 0, 0, 0, 0, 0, 0, 0, 0] [0, 0, 1] =
          .ok window ∧
        window = ⟨0x1000000000000000, 0, true⟩ ∧
        window.exact.Represents (Digits.toNat 16 ([1, 0, 0, 0, 0, 0, 0, 0, 0, 0, 0, 0, 0, 0,
          0, 0] ++ [0, 0, 1]) * 16 ^ (-3 : ℤ)) tail := by
  have hdigits : ∀ digit ∈ [1, 0, 0, 0, 0, 0, 0, 0, 0, 0, 0, 0, 0, 0, 0, 0] ++ [0, 0, 1],
      digit < 16 := by decide
  obtain ⟨window, tail, hwindow, -, hrepresents⟩ := ofDigits_losesOnlyTail hdigits (by decide)
  refine ⟨hdigits, window, tail, hwindow, ?_, hrepresents⟩
  have hrun : ofDigits [1, 0, 0, 0, 0, 0, 0, 0, 0, 0, 0, 0, 0, 0, 0, 0] [0, 0, 1] =
      .ok ⟨0x1000000000000000, 0, true⟩ := by decide
  exact Except.ok.inj (hwindow.symm.trans hrun)

end MachineWindow

end WasmFloat.Hexadecimal
