import WasmFloat.Decimal.Basic
import WasmFloat.Fault
import WasmFloat.Hexadecimal.Packing

/-!
Reading of `f64` literals of the WebAssembly text format: an optional sign,
then `inf`, `nan`, a NaN with its payload such as `nan(0x8_0000)`, or a
decimal or hexadecimal numeral. A numeral stands for the nearest value; one
that would round to infinity is out of range.
-/

namespace WasmFloat.Literal

/-- Takes one sign from the front, and says whether it is a minus. -/
def takeSign : List Char → Bool × List Char
  | '-' :: rest => (true, rest)
  | '+' :: rest => (false, rest)
  | text => (false, text)

/-- The text between `nan(0x` and a parenthesis at the very end. -/
def payloadText? : List Char → Option (List Char)
  | 'n' :: 'a' :: 'n' :: '(' :: '0' :: 'x' :: rest =>
      if rest.getLast? = some ')' then some rest.dropLast else none
  | _ => none

/-- The number of a run of hexadecimal digits, if it fits a word. -/
def payloadNumber? (digits : List Char) : Option UInt64 := do
  let values ← Digits.ofRun? 16 digits
  let number := Digits.toNat 16 values
  if number < UInt64.size then some (UInt64.ofNat number) else none

def readPayload (digits : List Char) : Except Fault Binary64 :=
  match payloadNumber? digits with
  | none => .error (.malformedPayload (String.ofList digits))
  | some payload =>
      if payload = 0 then .error .zeroPayload
      else if payload &&& Binary64.exponentMask ≠ 0 then
        .error .payloadOverlapsExponent
      else if payload &&& Binary64.signMask ≠ 0 then .error .payloadOverlapsSign
      else .ok ⟨Binary64.bareNan ||| payload⟩

def nearestDecimal? (numeral : Numeral) : Option Binary64 :=
  let pattern := (Decimal.ofNumeral numeral).nearest
  if pattern < Format.binary64.infinity then
    some (Binary64.ofMagnitude false pattern)
  else none

def readNumeral (style : NumeralStyle) (nearest? : Numeral → Option Binary64)
    (literal : List Char) (text : List Char) : Except Fault Binary64 :=
  match Numeral.read? style text with
  | none => .error (.malformedLiteral (String.ofList literal))
  | some numeral =>
      match nearest? numeral with
      | none => .error (.outOfRange (String.ofList literal))
      | some x => .ok x

def readMagnitude (literal : List Char) (text : List Char) :
    Except Fault Binary64 :=
  match payloadText? text with
  | some digits => readPayload digits
  | none =>
      match text with
      | [] => .error .empty
      | ['i', 'n', 'f'] => .ok Binary64.infinity
      | ['n', 'a', 'n'] => .ok Binary64.nan
      | '0' :: 'x' :: rest =>
          readNumeral .hexadecimal Hexadecimal.nearest? literal rest
      | _ => readNumeral .decimal nearestDecimal? literal text

def read (literal : List Char) : Except Fault Binary64 :=
  let (negative, text) := takeSign literal
  (readMagnitude literal text).map fun x => if negative then x.neg else x

def parse (literal : String) : Except Fault Binary64 := read literal.toList

end WasmFloat.Literal
