import WasmFloat.Hexadecimal.Packing

namespace WasmFloat.Hexadecimal

/-- The thirteen digits of the fraction bits without the zeros at their
end. -/
def fractionText (fraction : UInt64) : List Char :=
  if fraction = 0 then []
  else '.' :: Digits.dropTrailingZeros (Digits.paddedText 16 13 fraction.toNat)

/-- An exponent with its sign always shown. -/
def exponentText (exponent : Int) : List Char :=
  'p' :: (if exponent < 0 then '-' else '+') :: Digits.text 10 exponent.natAbs

/-- How far the fraction of a subnormal is shifted for its leading bit to
reach the place of the implicit one. -/
def normalizingShift (fraction : UInt64) : Nat := leadingZeros fraction - 11

/-- The fraction bits below the leading bit, and the exponent of that bit,
of a nonzero finite magnitude. -/
def parts (magnitude : UInt64) : UInt64 × Int :=
  let field := magnitude >>> 52
  let fraction := magnitude &&& Binary64.fractionMask
  if field = 0 then
    let shift := normalizingShift fraction
    ((fraction <<< UInt64.ofNat shift) &&& Binary64.fractionMask,
      -1022 - (shift : Int))
  else
    (fraction, field.toNat - 1023)

def text (magnitude : UInt64) : List Char :=
  if magnitude = 0 then ['0', 'x', '0', 'p', '+', '0']
  else
    let (fraction, exponent) := parts magnitude
    ['0', 'x', '1'] ++ fractionText fraction ++ exponentText exponent

end WasmFloat.Hexadecimal
