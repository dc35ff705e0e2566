import WasmFloat.Quoted

namespace WasmFloat

inductive ItemFault
  /-- The bytes end inside an item. -/
  | underrun
  | unsupportedHeaderValue
  /-- A number is not in its shortest form. -/
  | nonCanonicalNumeric
  | invalidSimpleValue
  | invalidString
  | unusedData (count : Nat)
  | misorderedMapKey
  | duplicateMapKey
  /-- An integer is not a value of the wanted type. -/
  | outOfRange
  | wrongType
  | wrongTag (expected actual : Nat)
  /-- Any other cause, in the words of the one who met it. -/
  | custom (message : String)
deriving DecidableEq

namespace ItemFault

def name : ItemFault → String
  | underrun => "Underrun"
  | unsupportedHeaderValue => "UnsupportedHeaderValue"
  | nonCanonicalNumeric => "NonCanonicalNumeric"
  | invalidSimpleValue => "InvalidSimpleValue"
  | invalidString => "InvalidString"
  | unusedData _ => "UnusedData"
  | misorderedMapKey => "MisorderedMapKey"
  | duplicateMapKey => "DuplicateMapKey"
  | outOfRange => "OutOfRange"
  | wrongType => "WrongType"
  | wrongTag _ _ => "WrongTag"
  | custom _ => "Custom"

def message : ItemFault → String
  | underrun => "early end of CBOR data"
  | unsupportedHeaderValue => "unsupported value in CBOR header"
  | nonCanonicalNumeric =>
      "a CBOR numeric value was encoded in non-canonical form"
  | invalidSimpleValue => "an invalid CBOR simple value was encountered"
  | invalidString =>
      "an invalidly-encoded UTF-8 string was encountered in the CBOR"
  | unusedData count =>
      "the decoded CBOR had " ++ toString count ++ " extra bytes at the end"
  | misorderedMapKey =>
      "the decoded CBOR map has keys that are not in canonical order"
  | duplicateMapKey => "the decoded CBOR map has a duplicate key"
  | outOfRange =>
      "the CBOR numeric value could not be represented in the specified " ++
        "numeric type"
  | wrongType => "the decoded CBOR value was not the expected type"
  | wrongTag expected actual =>
      "expected CBOR tag " ++ toString expected ++ ", but got " ++
        toString actual
  | custom message => message

def debug : ItemFault → String
  | unusedData count => "UnusedData(" ++ toString count ++ ")"
  | wrongTag expected actual =>
      "WrongTag(" ++ toString expected ++ ", " ++ toString actual ++ ")"
  | custom message => "Custom(" ++ Quoted.quote message ++ ")"
  | fault => fault.name

end ItemFault

end WasmFloat
