import WasmFloat.Decimal.Basic

/-!
The shortest decimal number that reads back as a given magnitude. Grids of
multiples of a power of ten are tried from coarse to fine; on each, only the
two neighbours of the value can be the nearest that reads back.
-/

namespace WasmFloat.Decimal

def readsAs (number : Decimal) (pattern : Nat) : Bool :=
  number.nearest == pattern

/-- A finite magnitude over a power of ten, as a numerator and a
denominator. -/
def overGrid (units : Nat) (exponent : Int) : Nat × Nat :=
  (units * tenPow (-exponent).toNat,
    Format.binary64.one * tenPow exponent.toNat)

/-- The multiple of ten to the `exponent` that reads back, the nearer of the two
around the value if both do and the upper one of a tie. -/
def onGrid? (pattern : Nat) (exponent : Int) : Option Decimal :=
  let (numerator, denominator) :=
    overGrid (Format.binary64.units pattern) exponent
  let below : Decimal := ⟨numerator / denominator, exponent⟩
  let above : Decimal := ⟨(numerator + denominator - 1) / denominator, exponent⟩
  let nearer :=
    if 2 * (numerator % denominator) < denominator then below else above
  let farther :=
    if 2 * (numerator % denominator) < denominator then above else below
  if nearer.readsAs pattern then some nearer
  else if farther.readsAs pattern then some farther
  else none

/-- The exponent of the finest grid, whose points include every finite
value. -/
def finestExponent : Int := -(Format.binary64.unitScale : Int)

def pointsPerUnit : Nat := Nat.pow 5 Format.binary64.unitScale

def onFinestGrid (pattern : Nat) : Decimal :=
  ⟨Format.binary64.units pattern * pointsPerUnit, finestExponent⟩

/-- Tries the grid `steps` above the finest one and then the finer ones. -/
def search (pattern : Nat) : (steps : Nat) → Decimal
  | 0 => onFinestGrid pattern
  | steps + 1 =>
      match onGrid? pattern (finestExponent + (steps + 1 : Nat)) with
      | some number => number
      | none => search pattern steps

/-- How far the coarsest useful grid, the first power of ten above the
value, is from the finest one. -/
def coarsestStep (pattern : Nat) : Nat :=
  (Digits.text 10 (onFinestGrid pattern).coefficient).length

/-- The shortest decimal number that reads back as a finite magnitude, and
the nearest to it of those. -/
def shortest (pattern : Nat) : Decimal :=
  if pattern = 0 then ⟨0, 0⟩ else search pattern (coarsestStep pattern)

end WasmFloat.Decimal
