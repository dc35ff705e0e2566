import WasmFloat.Digits

/-!
The common grammar of decimal and hexadecimal numerals,
`num ('.' num?)? (marker [+-]? num)?`, where `num` is a run of digits. The
digits of the exponent are decimal in both.
-/

namespace WasmFloat

structure Exponent where
  negative : Bool
  digits : List Nat

namespace Exponent

def absent : Exponent := ⟨false, []⟩

def signed (exponent : Exponent) (size : Nat) : Int :=
  if exponent.negative then -(size : Int) else size

def toInt (exponent : Exponent) : Int :=
  exponent.signed (Digits.toNat 10 exponent.digits)

/-- No exponent is kept larger than this in size. -/
def bound : Nat := 0x100000000

/-- The number that decimal digits denote, cut to the bound after each. -/
def clampedSize (digits : List Nat) : Nat :=
  digits.foldl (fun size digit => min (10 * size + digit) bound) 0

def clamped (exponent : Exponent) : Int :=
  exponent.signed (clampedSize exponent.digits)

def read? : List Char → Option Exponent
  | '-' :: digits => (Digits.ofRun? 10 digits).map (⟨true, ·⟩)
  | '+' :: digits => (Digits.ofRun? 10 digits).map (⟨false, ·⟩)
  | digits => (Digits.ofRun? 10 digits).map (⟨false, ·⟩)

end Exponent

/-- What tells one notation from the other: the radix of its digits and the
letter that begins an exponent, in either case. -/
structure NumeralStyle where
  radix : Nat
  marker : Char → Bool

namespace NumeralStyle

def decimal : NumeralStyle := ⟨10, fun c => c == 'e' || c == 'E'⟩

def hexadecimal : NumeralStyle := ⟨16, fun c => c == 'p' || c == 'P'⟩

end NumeralStyle

structure Numeral where
  integer : List Nat
  fraction : List Nat
  exponent : Exponent

namespace Numeral

/-- Cuts a text at the first character of a kind. The second part is absent
when there is no such character, and does not hold it otherwise. -/
def cut (stops : Char → Bool) (text : List Char) :
    List Char × Option (List Char) :=
  (text.takeWhile (!stops ·), (text.dropWhile (!stops ·)).tail?)

def readFraction? (radix : Nat) : Option (List Char) → Option (List Nat)
  | none => some []
  | some [] => some []
  | some digits => Digits.ofRun? radix digits

def read? (style : NumeralStyle) (text : List Char) : Option Numeral := do
  let (mantissa, exponentText) := cut style.marker text
  let (integerText, fractionText) := cut (· == '.') mantissa
  let exponent ← match exponentText with
    | none => some Exponent.absent
    | some written => Exponent.read? written
  let integer ← Digits.ofRun? style.radix integerText
  let fraction ← readFraction? style.radix fractionText
  return ⟨integer, fraction, exponent⟩

/-- All digits of a numeral as one number, its point left out. -/
def coefficient (numeral : Numeral) (radix : Nat) : Nat :=
  Digits.toNat radix (numeral.integer ++ numeral.fraction)

end Numeral

end WasmFloat
