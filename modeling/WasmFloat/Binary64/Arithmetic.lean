import WasmFloat.Binary64.Basic

namespace WasmFloat.Binary64

/-- The value nearest to a number of units, a zero having the sign that is
asked for. -/
def ofUnits (negativeZero : Bool) (units : Int) : Binary64 :=
  if units = 0 then ofMagnitude negativeZero 0
  else rounded (decide (units < 0)) units.natAbs 1

/-- A sum of zeros is negative only if both are. -/
def add (x y : Binary64) : Binary64 :=
  if x.isNan || y.isNan then nan
  else if x.isInfinite then
    if y.isInfinite && x.isNegative != y.isNegative then nan else x
  else if y.isInfinite then y
  else ofUnits (x.isNegative && y.isNegative) (x.signedUnits + y.signedUnits)

/-- A difference of zeros is negative only if a positive one is taken from a
negative one. -/
def sub (x y : Binary64) : Binary64 :=
  if x.isNan || y.isNan then nan
  else if x.isInfinite then
    if y.isInfinite && x.isNegative == y.isNegative then nan else x
  else if y.isInfinite then y.neg
  else ofUnits (x.isNegative && !y.isNegative) (x.signedUnits - y.signedUnits)

def mul (x y : Binary64) : Binary64 :=
  let negative := x.isNegative != y.isNegative
  if x.isNan || y.isNan then nan
  else if x.isInfinite || y.isInfinite then
    if x.isZero || y.isZero then nan
    else ofMagnitude negative Format.binary64.infinity
  else
    rounded negative (x.units * y.units) Format.binary64.one

def div (x y : Binary64) : Binary64 :=
  let negative := x.isNegative != y.isNegative
  if x.isNan || y.isNan then nan
  else if x.isInfinite then
    if y.isInfinite then nan else ofMagnitude negative Format.binary64.infinity
  else if y.isInfinite then ofMagnitude negative 0
  else if y.isZero then
    if x.isZero then nan else ofMagnitude negative Format.binary64.infinity
  else
    rounded negative (x.units * Format.binary64.one) y.units

/-- Both zeros and positive infinity are their own roots; any other value
with the sign bit set has none. -/
def sqrt (x : Binary64) : Binary64 :=
  if x.isNan then nan
  else if x.isZero then x
  else if x.isNegative then nan
  else if x.isInfinite then x
  else ofMagnitude false (Format.binary64.nearestSqrt x.units)

end WasmFloat.Binary64
