import WasmFloat.Binary64.Basic
import WasmFloat.Hexadecimal.Window

namespace WasmFloat.Hexadecimal

def leadingZeros (word : UInt64) : Nat :=
  if word = 0 then 64 else 63 - word.toNat.log2

def dropped (word : UInt64) (shift : Nat) : UInt64 :=
  word &&& (1 <<< UInt64.ofNat shift - 1)

/-- Whether the bits dropped by a shift by 1 to 64 places, with a sticky part
below them, round `kept` up: they exceed one half, or are one half and `kept`
is odd. -/
def roundsUp (kept rest : UInt64) (shift : Nat) (sticky : Bool) : Bool :=
  let half : UInt64 := 1 <<< UInt64.ofNat (shift - 1)
  decide (half < rest) || (rest == half && (sticky || kept &&& 1 == 1))

/-- A word over `2 ^ shift`, rounded to the nearest integer with halves to
even. -/
def shiftRightHalfEven (word : UInt64) (shift : Nat) (sticky : Bool) : UInt64 :=
  if shift = 0 then word
  else if 64 < shift then 0
  else
    let kept := if shift = 64 then 0 else word >>> UInt64.ofNat shift
    let rest := if shift = 64 then word else dropped word shift
    if roundsUp kept rest shift sticky then kept + 1 else kept

namespace Window

def leadExponent (window : Window) : Int :=
  window.shift - leadingZeros window.significand + 63

def normalized (window : Window) : UInt64 :=
  window.significand <<< UInt64.ofNat (leadingZeros window.significand)

/-- How far below the normal numbers a leading bit lies. -/
def subnormalShift (lead : Int) : Nat := (-1022 - lead).toNat

/-- The bits kept from the normalized word: 53 of a normal number, fewer of
a subnormal one. -/
def kept (window : Window) : UInt64 :=
  shiftRightHalfEven window.normalized
    (11 + subnormalShift window.leadExponent) window.sticky

def packNormal (lead : Int) (kept : UInt64) : UInt64 :=
  UInt64.ofNat (lead + 1023).toNat <<< 52 ||| (kept &&& Binary64.fractionMask)

/-- The bits of the nonnegative binary64 value nearest to a window, if that
is finite. A subnormal that rounds up to a bit at position 52 is already the
word of the least normal number. -/
def pack? (window : Window) : Option UInt64 :=
  let lead := window.leadExponent
  let kept := window.kept
  if window.significand = 0 then some 0
  else if 1023 < lead then none
  else if 0 < subnormalShift lead then some kept
  else if kept >>> 53 = 0 then some (packNormal lead kept)
  else if 1023 < lead + 1 then none
  else some (packNormal (lead + 1) (kept >>> 1))

end Window

def nearest? (numeral : Numeral) : Option Binary64 :=
  (Window.ofNumeral numeral).pack?.map Binary64.mk

end WasmFloat.Hexadecimal
