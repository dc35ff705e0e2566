import WasmFloat.Decimal.Basic

namespace WasmFloat

/-- Which decimal exponents are written positionally: those from the first
bound up to but not including the second. -/
structure DecimalLayout where
  positionalFrom : Int
  positionalBelow : Int

namespace DecimalLayout

def literal : DecimalLayout := ⟨-7, 21⟩

def diagnostic : DecimalLayout := ⟨-4, 16⟩

end DecimalLayout

namespace Decimal

def withFraction (digits fraction : List Char) : List Char :=
  if fraction.isEmpty then digits else digits ++ '.' :: fraction

/-- The position of a number's first digit: it is at least ten to this
power and less than ten times as much. -/
def leadingExponent (number : Decimal) : Int :=
  (Digits.text 10 number.coefficient).length - 1 + number.exponent

def scientific (number : Decimal) : List Char :=
  let digits := Digits.text 10 number.coefficient
  withFraction (digits.take 1) (Digits.dropTrailingZeros (digits.drop 1)) ++
    'e' :: Digits.signedText number.leadingExponent

/-- A number at least one shows its integer part, one below it a single zero
before the point. -/
def positional (number : Decimal) : List Char :=
  let digits := Digits.text 10 number.coefficient
  let fractionLength := (-number.exponent).toNat
  let padded := List.replicate (fractionLength + 1 - digits.length) '0' ++
    digits ++ List.replicate number.exponent.toNat '0'
  let integerLength := padded.length - fractionLength
  withFraction (padded.take integerLength)
    (Digits.dropTrailingZeros (padded.drop integerLength))

def layOut (layout : DecimalLayout) (number : Decimal) : List Char :=
  if number.coefficient = 0 then ['0']
  else if layout.positionalFrom ≤ number.leadingExponent ∧
      number.leadingExponent < layout.positionalBelow then
    number.positional
  else
    number.scientific

end Decimal

end WasmFloat
