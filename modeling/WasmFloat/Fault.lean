import WasmFloat.Item.Fault

namespace WasmFloat

inductive Fault
  | cbor (cause : ItemFault)
  | empty
  /-- Carries the whole literal. -/
  | malformedLiteral (literal : String)
  /-- Carries the text between the parentheses, after `0x`. -/
  | malformedPayload (digits : String)
  | zeroPayload
  | payloadOverlapsExponent
  | payloadOverlapsSign
  /-- Carries the whole literal. -/
  | outOfRange (literal : String)
  /-- Carries the number of bytes there were instead of eight. -/
  | invalidLength (length : Nat)
  | notNan
deriving DecidableEq

namespace Fault

def name : Fault → String
  | cbor _ => "Cbor"
  | empty => "Empty"
  | malformedLiteral _ => "MalformedLiteral"
  | malformedPayload _ => "MalformedPayload"
  | zeroPayload => "ZeroPayload"
  | payloadOverlapsExponent => "PayloadOverlapsExponent"
  | payloadOverlapsSign => "PayloadOverlapsSign"
  | outOfRange _ => "OutOfRange"
  | invalidLength _ => "InvalidLength"
  | notNan => "NotANan"

def message : Fault → String
  | cbor cause => "CBOR error (" ++ cause.message ++ ")"
  | empty => "empty f64 literal"
  | malformedLiteral literal =>
      "malformed f64 literal: " ++ Quoted.quote literal
  | malformedPayload digits =>
      "malformed NaN payload: " ++ Quoted.quote digits
  | zeroPayload => "NaN payload must be non-zero"
  | payloadOverlapsExponent => "NaN payload overlaps the exponent bits"
  | payloadOverlapsSign => "NaN payload overlaps the sign bit"
  | outOfRange literal => "f64 literal out of range: " ++ Quoted.quote literal
  | invalidLength length =>
      "invalid f64 length: expected 8 bytes, got " ++ toString length ++
        " bytes"
  | notNan => "not a NaN bit pattern"

def debug (fault : Fault) : String :=
  match fault with
  | cbor cause => fault.name ++ "(" ++ cause.debug ++ ")"
  | malformedLiteral text | malformedPayload text | outOfRange text =>
      fault.name ++ "(" ++ Quoted.quote text ++ ")"
  | invalidLength length => fault.name ++ "(" ++ toString length ++ ")"
  | _ => fault.name

def toItemFault : Fault → ItemFault
  | cbor cause => cause
  | fault => .custom fault.message

end Fault

end WasmFloat
