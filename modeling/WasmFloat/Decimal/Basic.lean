import WasmFloat.Format.Rounding
import WasmFloat.Numeral

namespace WasmFloat

/-- The number `coefficient` times ten to the `exponent`. -/
structure Decimal where
  coefficient : Nat
  exponent : Int

namespace Decimal

def tenPow (k : Nat) : Nat := Nat.pow 10 k

def ofNumeral (numeral : Numeral) : Decimal where
  coefficient := numeral.coefficient 10
  exponent := numeral.exponent.toInt - numeral.fraction.length

/-- The magnitude pattern nearest to a number, without regard to its size. -/
def nearestAtScale (number : Decimal) : Nat :=
  Format.binary64.nearest
    (number.coefficient * tenPow number.exponent.toNat * Format.binary64.one)
    (tenPow (-number.exponent).toNat)

/-- The magnitude pattern nearest to a number; not below infinity's when the
number is out of range. Exponents that decide alone are met first, so that no
power of ten is formed for them: `1e309` is out of range, and a number is
less than half a unit when three bits for each ten in its divisor already
outweigh its coefficient. -/
def nearest (number : Decimal) : Nat :=
  if number.coefficient = 0 then 0
  else if 309 ≤ number.exponent then Format.binary64.infinity
  else if (number.coefficient.log2 : Int) + 1076 ≤ 3 * -number.exponent then 0
  else number.nearestAtScale

end Decimal

end WasmFloat
