import WasmFloat.Literal.Presentation
import WasmFloat.Literal.Reader
import WasmFloat.Operation
import WasmFloat.Transport.Basic

namespace WasmFloat

/-- Where a step takes its second value from: a constant, or the accumulator
as it was after an earlier step, the zeroth being the start. -/
inductive Operand
  | constant (x : Binary64)
  | earlier (index : Nat)

inductive Step
  | unary (op : UnaryOp)
  | binary (op : BinaryOp) (operand : Operand)
  | compare (relation : Relation) (operand : Operand)
  | set (operand : Operand)
  | parse (literal : String)
  | rereadDecimal
  | rereadHexadecimal
  | transport
  | swap
  | decimal
  | hexadecimal

inductive Answer
  | value (x : Binary64)
  | truth (holds : Bool)
  | text (content : String)
  | refused (fault : Fault)
  | refusedItem (fault : ItemFault)

namespace Operand

def value? (history : List Binary64) : Operand → Option Binary64
  | constant x => some x
  | earlier index => history[index]?

end Operand

namespace Answer

def ofRead : Except Fault Binary64 → Answer
  | .ok x => value x
  | .error fault => refused fault

def ofTransported : Except ItemFault Binary64 → Answer
  | .ok x => value x
  | .error fault => refusedItem fault

def next (accumulator : Binary64) : Answer → Binary64
  | value x => x
  | _ => accumulator

end Answer

namespace Step

/-- The answer of a step; none if its operand names a later step. -/
def answer? (history : List Binary64) (accumulator : Binary64) :
    Step → Option Answer
  | unary op => some (.value (op.eval accumulator))
  | binary op operand =>
      (operand.value? history).map fun y => .value (op.eval accumulator y)
  | compare relation operand =>
      (operand.value? history).map fun y =>
        .truth (relation.holds accumulator y)
  | set operand => (operand.value? history).map .value
  | parse literal => some (.ofRead (Literal.parse literal))
  | rereadDecimal =>
      some (.ofRead (Literal.parse (Literal.decimal accumulator)))
  | rereadHexadecimal =>
      some (.ofRead (Literal.parse (Literal.hexadecimal accumulator)))
  | transport =>
      some (.ofTransported (Binary64.ofTransportBytes accumulator.transportBytes))
  | swap => some (.value accumulator.swapBytes)
  | decimal => some (.text (Literal.decimal accumulator))
  | hexadecimal => some (.text (Literal.hexadecimal accumulator))

end Step

abbrev Program := List Step

namespace Program

def runFrom (history : List Binary64) (accumulator : Binary64) :
    Program → Option (List Answer × Binary64)
  | [] => some ([], accumulator)
  | step :: steps => do
      let answer ← step.answer? history accumulator
      let next := answer.next accumulator
      let (answers, last) ← runFrom (history ++ [next]) next steps
      return (answer :: answers, last)

def run (start : Binary64) (program : Program) :
    Option (List Answer × Binary64) :=
  program.runFrom [start] start

end Program

end WasmFloat
