import WasmFloat.Decimal.Layout
import WasmFloat.Decimal.Shortest
import WasmFloat.Transport.Basic

namespace WasmFloat.Binary64

def numberDiagnostic : Item → List Char
  | .unsigned n => Digits.text 10 n.toNat
  | .negative n => '-' :: Digits.text 10 (n.toNat + 1)
  | .float x =>
      (if x.isNegative then ['-'] else []) ++
        (if x.isFinite then
          (Decimal.shortest x.magnitude).layOut .diagnostic
        else "Infinity".toList)
  | _ => []

/-- The diagnostic notation of a value. A NaN shows its tag and its bytes. -/
def diagnostic (x : Binary64) : String :=
  if x.isNan then
    toString Nan.tag.toNat ++ "(h\x27" ++
      String.ofList (Digits.hexOfBytes x.toBytes) ++ "\x27)"
  else String.ofList (numberDiagnostic (Item.ofNumber x))

end WasmFloat.Binary64
