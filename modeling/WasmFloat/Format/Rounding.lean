import WasmFloat.Format

namespace WasmFloat

/-- The integer nearest to `numerator / denominator`, the even one when two
are equally near. -/
def roundHalfEven (numerator denominator : Nat) : Nat :=
  let quotient := numerator / denominator
  let remainder := numerator % denominator
  if 2 * remainder < denominator ∨
      (2 * remainder = denominator ∧ quotient % 2 = 0) then
    quotient
  else
    quotient + 1

@[simp] theorem roundHalfEven_one (n : Nat) : roundHalfEven n 1 = n := by
  simp [roundHalfEven, Nat.mod_one]

/-- The floor of the square root of `n`, one base-four digit of `n` at a
time; exact when `n` has at most `digits` of them. -/
def floorSqrtDigits : (digits : Nat) → (n : Nat) → Nat
  | 0, _ => 0
  | digits + 1, n =>
      let root := 2 * floorSqrtDigits digits (n / 4)
      if (root + 1) * (root + 1) ≤ n then root + 1 else root

def floorSqrt (n : Nat) : Nat :=
  floorSqrtDigits (n.log2 / 2 + 1) n

namespace Format

/-- How many low bits of a number of `units` units the format cannot hold. -/
def excessBits (F : Format) (units : Nat) : Nat :=
  units.log2 - F.fractionBits

/-- The pattern nearest to `numerator / denominator` units. The kept bits
are added to the exponent field rather than joined to it, so that a carry out
of them lands on the next binade. A quotient that is too large gets a pattern
that is not below `infinity`. -/
def nearest (F : Format) (numerator denominator : Nat) : Nat :=
  let excess := F.excessBits (numerator / denominator)
  excess * F.hiddenBit + roundHalfEven numerator (denominator <<< excess)

/-- The pattern of `units` finer units, of which `1 <<< drop` make one, if a
finite pattern has exactly this value. -/
def pattern? (F : Format) (units drop : Nat) : Option Nat :=
  let pattern := F.nearest units (1 <<< drop)
  if pattern < F.infinity ∧ F.units pattern <<< drop = units then
    some pattern
  else
    none

/-- The pattern nearest to the square root of a value of `units` units. The
root of a representable number is never halfway between two patterns, so
there is no tie to break. -/
def nearestSqrt (F : Format) (units : Nat) : Nat :=
  let square := units * F.one
  let excess := (floorSqrt square).log2 - F.fractionBits
  let kept := floorSqrt (square >>> (2 * excess))
  let halfway := ((2 * kept + 1) * (2 * kept + 1)) <<< (2 * excess)
  excess * F.hiddenBit + (if halfway < 4 * square then kept + 1 else kept)

end Format

end WasmFloat
