import WasmFloat.Operation
import WasmFloat.Proofs.Integers
import WasmFloat.Proofs.Order
import WasmFloat.Proofs.Products
import WasmFloat.Proofs.RootRounding

namespace WasmFloat

namespace Binary64

end Binary64

open Binary64

namespace UnaryOp

variable {op : UnaryOp} {x y : Binary64}

end UnaryOp

namespace BinaryOp

variable {op : BinaryOp} {x y : Binary64}

end BinaryOp

namespace Relation

variable {x y : Binary64}

end Relation

namespace Expression

def nodes : Expression → List Expression
  | input index => [input index]
  | unary op operand => unary op operand :: operand.nodes
  | binary op left right => binary op left right :: (left.nodes ++ right.nodes)

def isArithmetic : Expression → Bool
  | input _ => false
  | unary op _ => op.isArithmetic
  | binary op _ _ => op.isArithmetic

/-- Copying a sign is the one operation that can carry the sign of a NaN over to
a number. -/
def AvoidsCopysign (tree : Expression) : Prop :=
  ∀ left right, binary .copysign left right ∉ tree.nodes

/-- Where a payload comes from. A signalling input can have been quieted. -/
inductive PayloadOrigin (tree : Expression) (inputs : ℕ → Binary64) : UInt64 → Prop
  | canonical {payload : UInt64} (h : nan.payload? = some payload) :
      PayloadOrigin tree inputs payload
  | input {index : ℕ} {payload : UInt64} (hmem : input index ∈ tree.nodes)
      (h : (inputs index).payload? = some payload) : PayloadOrigin tree inputs payload
  | quieted {index : ℕ} {payload : UInt64} (hmem : Expression.input index ∈ tree.nodes)
      (hsignalling : ¬ (inputs index).IsQuiet) (h : (inputs index).payload? = some payload) :
      PayloadOrigin tree inputs (payload ||| quietBit)

variable {tree : Expression} {first second inputs : ℕ → Binary64}

theorem mem_nodes_self (tree : Expression) : tree ∈ tree.nodes := by
  cases tree <;> simp [nodes]

namespace PayloadOrigin

variable {payload : UInt64}

theorem or_quietBit (h : tree.PayloadOrigin inputs payload) :
    tree.PayloadOrigin inputs (payload ||| quietBit) := by
  cases h with
  | canonical hnan =>
      rw [← Option.some.inj hnan]
      exact canonical rfl
  | @input index _ hmem hinput =>
      by_cases hquiet : (inputs index).IsQuiet
      · apply input hmem
        rw [← quieted_of_isQuiet hquiet, payload?_quieted, hinput]
        rfl
      · exact quieted hmem hquiet hinput
  | quieted hmem hsignalling hinput =>
      rw [UInt64.or_assoc, UInt64.or_self]
      exact quieted hmem hsignalling hinput

end PayloadOrigin

theorem AvoidsCopysign.isArithmetic {op : BinaryOp} {left right : Expression}
    (h : (binary op left right).AvoidsCopysign) : op.isArithmetic = true := by
  have hself := mem_nodes_self (binary op left right)
  cases op with
  | copysign => exact absurd hself (h left right)
  | _ => rfl

end Expression

end WasmFloat
