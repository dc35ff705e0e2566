import WasmFloat.Binary64.Integral

namespace WasmFloat

inductive Item
  | unsigned (n : UInt64)
  /-- The integer `-1 - n`. -/
  | negative (n : UInt64)
  | bytes (data : List UInt8)
  | text (content : String)
  | array (elements : List Item)
  | map (entries : List (Item × Item))
  | tagged (tag : UInt64) (content : Item)
  | bool (value : Bool)
  | null
  | float (value : Binary64)

namespace Item

instance : Inhabited Item := ⟨null⟩

/-- The item of a number. An integral value is an integer, for which the two
zeros are the same, if it is below the limit and not below `-2 ^ 64`. -/
def ofNumberBelow (limit : Nat) (x : Binary64) : Item :=
  if !x.isInteger then float x
  else if x.isNegative && !x.isZero then
    if x.whole ≤ UInt64.size then negative (UInt64.ofNat (x.whole - 1)) else float x
  else if x.whole < limit then unsigned (UInt64.ofNat x.whole)
  else float x

/-- The item of a number, an integer wherever a 64-bit argument can hold
it. -/
def ofNumber (x : Binary64) : Item := ofNumberBelow UInt64.size x

end Item

end WasmFloat
