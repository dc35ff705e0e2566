import WasmFloat.Binary64.Bytes
import WasmFloat.Decimal.Layout
import WasmFloat.Decimal.Shortest
import WasmFloat.Hexadecimal.Printer

namespace WasmFloat

namespace Literal

/-- The literal of a value, given how a finite magnitude is written. -/
def write (finite : Binary64 → List Char) (x : Binary64) : List Char :=
  let magnitude := x.abs
  (if x.isNegative then ['-'] else []) ++
    if magnitude.isNan then
      ['n', 'a', 'n', '(', '0', 'x'] ++
        Digits.text 16 (magnitude.bits ^^^ Binary64.bareNan).toNat ++ [')']
    else if magnitude.isInfinite then ['i', 'n', 'f']
    else finite magnitude

def decimalText (x : Binary64) : List Char :=
  (Decimal.shortest x.magnitude).layOut .literal

def hexadecimalText (x : Binary64) : List Char := Hexadecimal.text x.bits

def decimal (x : Binary64) : String := String.ofList (write decimalText x)

def hexadecimal (x : Binary64) : String :=
  String.ofList (write hexadecimalText x)

end Literal

inductive Presentation
  | decimal
  | hexadecimal
  | debug
deriving DecidableEq

namespace Presentation

/-- Reads a format directive, whose last character before the closing brace
is its kind: `x` asks for hexadecimal and `?` for the bits, no kind for
decimal. Width, precision and flags have no effect. -/
def ofDirective (directive : String) : Presentation :=
  match (directive.toList.dropLast).getLast? with
  | some 'x' => hexadecimal
  | some '?' => debug
  | _ => decimal

def render : Presentation → Binary64 → String
  | decimal => Literal.decimal
  | hexadecimal => Literal.hexadecimal
  | debug => Binary64.debug

end Presentation

end WasmFloat
