import WasmFloat.Binary64.Arithmetic
import WasmFloat.Binary64.Integral
import WasmFloat.Binary64.Order

namespace WasmFloat

inductive UnaryOp
  | abs
  | neg
  | sqrt
  | ceil
  | floor
  | trunc
  | nearest
deriving DecidableEq

inductive BinaryOp
  | add
  | sub
  | mul
  | div
  | min
  | max
  | copysign
deriving DecidableEq

inductive Relation
  | eq
  | ne
  | lt
  | gt
  | le
  | ge
deriving DecidableEq

def UnaryOp.eval : UnaryOp → Binary64 → Binary64
  | abs => Binary64.abs
  | neg => Binary64.neg
  | sqrt => Binary64.sqrt
  | ceil => Binary64.ceil
  | floor => Binary64.floor
  | trunc => Binary64.trunc
  | nearest => Binary64.nearest

def BinaryOp.eval : BinaryOp → Binary64 → Binary64 → Binary64
  | add => Binary64.add
  | sub => Binary64.sub
  | mul => Binary64.mul
  | div => Binary64.div
  | min => Binary64.min
  | max => Binary64.max
  | copysign => Binary64.copysign

def Relation.holds : Relation → Binary64 → Binary64 → Bool
  | eq => Binary64.eq
  | ne => Binary64.ne
  | lt => Binary64.lt
  | gt => Binary64.gt
  | le => Binary64.le
  | ge => Binary64.ge

/-- Whether a NaN that results is always the canonical one. Roundings pass the
NaN on that they are given. -/
def UnaryOp.isArithmetic : UnaryOp → Bool
  | sqrt => true
  | _ => false

/-- See `UnaryOp.isArithmetic`. The sign of a NaN can be copied over. -/
def BinaryOp.isArithmetic : BinaryOp → Bool
  | copysign => false
  | _ => true

inductive Expression
  | input (index : Nat)
  | unary (op : UnaryOp) (operand : Expression)
  | binary (op : BinaryOp) (left right : Expression)
deriving DecidableEq

namespace Expression

def eval (inputs : Nat → Binary64) : Expression → Binary64
  | input index => inputs index
  | unary op operand => op.eval (operand.eval inputs)
  | binary op left right => op.eval (left.eval inputs) (right.eval inputs)

end Expression

end WasmFloat
