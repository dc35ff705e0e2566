import WasmFloat.Literal.Reader

namespace WasmFloat

structure Rejection where
  literal : String
  fault : Fault
deriving DecidableEq

namespace Rejection

def level : String := "DEBUG"

def message : String := "rejected f64 literal"

end Rejection

/-- Reads a literal; a refused one leaves exactly one entry. -/
def Literal.parseLogged (literal : String) :
    Except Fault Binary64 × List Rejection :=
  match parse literal with
  | .ok x => (.ok x, [])
  | .error fault => (.error fault, [⟨literal, fault⟩])

end WasmFloat
