import WasmFloat.Binary64.Arithmetic
import WasmFloat.Item.Decoder
import WasmFloat.Transport.Nan

namespace WasmFloat.Binary64

def toItem (x : Binary64) : Item :=
  if h : x.isNan = true then (Nan.mk x h).toItem else Item.ofNumber x

/-- The integer part of a value that is not negative, cut to the largest word
of 64 bits. -/
def saturatedWhole (x : Binary64) : Nat :=
  if x.isFinite then Nat.min x.whole (UInt64.size - 1) else UInt64.size - 1

/-- The value of a word, if converting it back gives the word again. -/
def ofWord (n : UInt64) : Except ItemFault Binary64 :=
  let x := ofNat n.toNat
  if x.saturatedWhole = n.toNat then .ok x else .error .outOfRange

/-- Reads an item that is not tagged. The integer `-1 - n` is read as the
difference of minus one and `n`. -/
def ofUntagged : Item → Except ItemFault Binary64
  | .unsigned n => ofWord n
  | .negative n => (ofWord n).map fun x => sub one.neg x
  | .float x => .ok x
  | _ => .error .wrongType

def ofItem : Item → Except ItemFault Binary64
  | .tagged found content =>
      if found = Nan.tag then (Nan.ofContent content).map Nan.value
      else .error .wrongType
  | item => ofUntagged item

def transportBytes (x : Binary64) : List UInt8 := x.toItem.encode

def ofTransportBytes (bytes : List UInt8) : Except ItemFault Binary64 :=
  match Item.decode bytes with
  | .ok item => ofItem item
  | .error fault => .error fault

end WasmFloat.Binary64
