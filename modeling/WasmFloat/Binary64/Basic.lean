import WasmFloat.Format.Rounding

/-!
Values of the WebAssembly `f64` type. A value is a 64-bit pattern and nothing
else, so NaNs differ by sign and payload; the number it denotes is read off
the pattern.
-/

namespace WasmFloat

structure Binary64 where
  bits : UInt64
deriving DecidableEq

namespace Binary64

def signMask : UInt64 := 0x8000000000000000

def exponentMask : UInt64 := 0x7FF0000000000000

def fractionMask : UInt64 := 0x000FFFFFFFFFFFFF

/-- Every exponent bit and nothing else. Joined with a payload it is a NaN,
on its own it is infinity. -/
def bareNan : UInt64 := exponentMask

/-- The highest fraction bit, which a NaN has unless it is a signalling one. -/
def quietBit : UInt64 := 0x0008000000000000

/-- The NaN that arithmetic gives, whatever NaNs went in. -/
def canonicalNan : UInt64 := bareNan ||| quietBit

def zero : Binary64 := ⟨0⟩

def negZero : Binary64 := ⟨signMask⟩

def one : Binary64 := ⟨0x3FF0000000000000⟩

def infinity : Binary64 := ⟨bareNan⟩

def negInfinity : Binary64 := ⟨bareNan ||| signMask⟩

def nan : Binary64 := ⟨canonicalNan⟩

instance : Inhabited Binary64 := ⟨zero⟩

def isNan (x : Binary64) : Bool :=
  x.bits &&& exponentMask == exponentMask && x.bits &&& fractionMask != 0

def isInfinite (x : Binary64) : Bool :=
  x.bits &&& ~~~signMask == bareNan

def isFinite (x : Binary64) : Bool :=
  x.bits &&& exponentMask != exponentMask

def isZero (x : Binary64) : Bool :=
  x.bits &&& ~~~signMask == 0

/-- The sign bit is set; true of negative zero and of some NaNs. -/
def isNegative (x : Binary64) : Bool :=
  x.bits &&& signMask != 0

/-- The canonical NaN, with either sign. -/
def isCanonicalNan (x : Binary64) : Bool :=
  x.bits &&& ~~~signMask == canonicalNan

/-- The fraction bits of a NaN. -/
def payload? (x : Binary64) : Option UInt64 :=
  if x.isNan then some (x.bits &&& fractionMask) else none

def abs (x : Binary64) : Binary64 := ⟨x.bits &&& ~~~signMask⟩

def neg (x : Binary64) : Binary64 := ⟨x.bits ^^^ signMask⟩

/-- Sets the quiet bit of a NaN and leaves any other value. -/
def quieted (x : Binary64) : Binary64 :=
  if x.isNan then ⟨x.bits ||| quietBit⟩ else x

def copysign (x sign : Binary64) : Binary64 :=
  ⟨(x.bits &&& ~~~signMask) ||| (sign.bits &&& signMask)⟩

/-- The bits below the sign, as a pattern of `Format.binary64`. -/
def magnitude (x : Binary64) : Nat := x.abs.bits.toNat

def ofMagnitude (negative : Bool) (pattern : Nat) : Binary64 :=
  if negative then neg ⟨UInt64.ofNat pattern⟩ else ⟨UInt64.ofNat pattern⟩

/-- The distance from zero of a finite value, in units of `2 ^ -1074`. -/
def units (x : Binary64) : Nat := Format.binary64.units x.magnitude

def signedUnits (x : Binary64) : Int :=
  if x.isNegative then -(x.units : Int) else x.units

/-- The value nearest to `numerator / denominator` units under a sign; an
infinity when that is out of the finite range. -/
def rounded (negative : Bool) (numerator denominator : Nat) : Binary64 :=
  ofMagnitude negative
    (min (Format.binary64.nearest numerator denominator) Format.binary64.infinity)

def ofNat (n : Nat) : Binary64 :=
  rounded false (n * Format.binary64.one) 1

end Binary64

end WasmFloat
