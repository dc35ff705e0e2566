import WasmFloat.Binary64.Basic

namespace WasmFloat.Binary64

/-- The integer part of a finite value's distance from zero. -/
def whole (x : Binary64) : Nat := x.units / Format.binary64.one

def isInteger (x : Binary64) : Bool :=
  x.isFinite && x.units % Format.binary64.one == 0

def hasFraction (x : Binary64) : Bool :=
  x.isFinite && x.units % Format.binary64.one != 0

/-- The integral value at distance `n` from zero on the side of `x`. A negative
fraction can come to negative zero. -/
def integral (x : Binary64) (n : Nat) : Binary64 :=
  rounded x.isNegative (n * Format.binary64.one) 1

/-- Only a value with a fraction is moved to `n`. Anything else is returned as it
stands, but for a signalling NaN, which is quieted. -/
def toIntegral (x : Binary64) (n : Nat) : Binary64 :=
  if x.hasFraction then x.integral n else x.quieted

def ceil (x : Binary64) : Binary64 :=
  x.toIntegral (if x.isNegative then x.whole else x.whole + 1)

def floor (x : Binary64) : Binary64 :=
  x.toIntegral (if x.isNegative then x.whole + 1 else x.whole)

def trunc (x : Binary64) : Binary64 := x.toIntegral x.whole

/-- The nearest integral value, the even one when two are equally near. -/
def nearest (x : Binary64) : Binary64 :=
  x.toIntegral (roundHalfEven x.units Format.binary64.one)

end WasmFloat.Binary64
