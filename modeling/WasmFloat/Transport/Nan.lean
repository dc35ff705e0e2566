import WasmFloat.Binary64.Bytes
import WasmFloat.Fault
import WasmFloat.Item.Basic

namespace WasmFloat

def Binary64.ofByteSlice (bytes : List UInt8) : Except Fault Binary64 :=
  match Binary64.ofBytes? bytes with
  | some x => .ok x
  | none => .error (.invalidLength bytes.length)

structure Nan where
  value : Binary64
  isNan_value : value.isNan = true
deriving DecidableEq

namespace Nan

def tag : UInt64 := 102

def ofBinary64 (x : Binary64) : Except Fault Nan :=
  if h : x.isNan = true then .ok ⟨x, h⟩ else .error .notNan

def ofBytes (bytes : List UInt8) : Except Fault Nan :=
  match Binary64.ofByteSlice bytes with
  | .ok x => ofBinary64 x
  | .error fault => .error fault

def content (x : Nan) : Item := .bytes x.value.toBytes

def toItem (x : Nan) : Item := .tagged tag x.content

def ofContent : Item → Except ItemFault Nan
  | .bytes data => (ofBytes data).mapError Fault.toItemFault
  | _ => .error .wrongType

def ofItem : Item → Except ItemFault Nan
  | .tagged found content =>
      if found = tag then ofContent content
      else .error (.wrongTag tag.toNat found.toNat)
  | _ => .error .wrongType

def debug (x : Nan) : String := "TaggedNan(" ++ x.value.debug ++ ")"

end Nan

end WasmFloat
