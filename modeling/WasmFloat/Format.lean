/-!
Binary interchange formats, seen through the magnitude patterns of their
words (the bits below the sign). A pattern denotes an integral number of
the format's least positive values, and larger patterns denote larger
numbers.
-/

namespace WasmFloat

/-- The widths of the two fields below the sign bit. -/
structure Format where
  fractionBits : Nat
  exponentBits : Nat

namespace Format

def binary16 : Format := ⟨10, 5⟩

def binary32 : Format := ⟨23, 8⟩

def binary64 : Format := ⟨52, 11⟩

/-- The bit above the fraction, which normal numbers have without storing
it. As a pattern it is the least normal number. -/
def hiddenBit (F : Format) : Nat := 1 <<< F.fractionBits

/-- The pattern of infinity: every exponent bit set, every fraction bit
clear. The finite magnitudes are exactly the patterns below it. -/
def infinity (F : Format) : Nat :=
  ((1 <<< F.exponentBits) - 1) * F.hiddenBit

/-- A unit is the least positive value of the format, two to the power of
`-unitScale`. -/
def unitScale (F : Format) : Nat :=
  (1 <<< (F.exponentBits - 1)) + F.fractionBits - 2

/-- How many units make the number one. -/
def one (F : Format) : Nat := 1 <<< F.unitScale

/-- The value of a magnitude pattern in units. The rule is kept beyond the
finite patterns, so that infinity's pattern stands for the power of two that
would follow the largest finite number. -/
def units (F : Format) (pattern : Nat) : Nat :=
  if pattern < F.hiddenBit then pattern
  else
    (F.hiddenBit + pattern % F.hiddenBit) <<< (pattern / F.hiddenBit - 1)

def signBit (F : Format) : Nat := 1 <<< (F.exponentBits + F.fractionBits)

def word (F : Format) (negative : Bool) (pattern : Nat) : Nat :=
  (if negative then F.signBit else 0) + pattern

/-- How much coarser the units are than those of binary64, as a power of
two. -/
def coarseness (F : Format) : Nat := binary64.unitScale - F.unitScale

end Format

end WasmFloat
