import WasmFloat.Binary64.Basic

namespace WasmFloat.Binary64

/-- The place of a value that is not a NaN on the line from one infinity to
the other: its magnitude pattern under its sign. -/
def rank (x : Binary64) : Int :=
  if x.isNegative then -(x.magnitude : Int) else x.magnitude

def ordered (x y : Binary64) : Bool := !x.isNan && !y.isNan

def eq (x y : Binary64) : Bool := ordered x y && x.rank == y.rank

def ne (x y : Binary64) : Bool := !eq x y

def lt (x y : Binary64) : Bool := ordered x y && decide (x.rank < y.rank)

def gt (x y : Binary64) : Bool := lt y x

def le (x y : Binary64) : Bool := ordered x y && decide (x.rank ≤ y.rank)

def ge (x y : Binary64) : Bool := le y x

/-- The lesser value, negative zero being less than positive zero; the
canonical NaN if either value is a NaN. Equal values differ in the sign bit at
most, so their union is the one with the sign. -/
def min (x y : Binary64) : Binary64 :=
  if eq x y then ⟨x.bits ||| y.bits⟩
  else if lt x y then x
  else if lt y x then y
  else nan

def max (x y : Binary64) : Binary64 :=
  if eq x y then ⟨x.bits &&& y.bits⟩
  else if gt x y then x
  else if gt y x then y
  else nan

end WasmFloat.Binary64
