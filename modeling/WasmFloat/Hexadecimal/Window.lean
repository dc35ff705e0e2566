import WasmFloat.Numeral

/-!
Hexadecimal digits of any number, gathered in one machine word. Digits enter
the word while its upper four bits are clear; of the later ones only their
number is kept, and whether any was not zero. The word, its shift and the
sticky flag therefore fix the digits' value up to a part below the word's
last bit.
-/

namespace WasmFloat.Hexadecimal

/-- The number `significand * 2 ^ shift`, plus something positive below
`2 ^ shift` if `sticky`. -/
structure Window where
  significand : UInt64
  shift : Int
  sticky : Bool
deriving DecidableEq

namespace Window

def empty : Window := ⟨0, 0, false⟩

def hasRoom (window : Window) : Bool := window.significand >>> 60 == 0

def append (window : Window) (digit : Nat) : UInt64 :=
  window.significand <<< 4 ||| UInt64.ofNat digit

/-- Takes the next digit before the point: a digit that finds no room still
makes the number sixteen times as large. -/
def pushInteger (window : Window) (digit : Nat) : Window :=
  if window.hasRoom then
    { window with significand := window.append digit }
  else
    { window with
      shift := window.shift + 4
      sticky := window.sticky || digit != 0 }

/-- Takes the next digit after the point: a digit that finds room makes the
word count sixteenths. -/
def pushFraction (window : Window) (digit : Nat) : Window :=
  if window.hasRoom then
    { window with
      significand := window.append digit
      shift := window.shift - 4 }
  else
    { window with sticky := window.sticky || digit != 0 }

def ofDigits (integer fraction : List Nat) : Window :=
  fraction.foldl pushFraction (integer.foldl pushInteger empty)

def scale (window : Window) (exponent : Int) : Window :=
  { window with shift := window.shift + exponent }

def ofNumeral (numeral : Numeral) : Window :=
  (ofDigits numeral.integer numeral.fraction).scale numeral.exponent.clamped

end Window

end WasmFloat.Hexadecimal
