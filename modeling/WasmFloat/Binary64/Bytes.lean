import WasmFloat.Binary64.Basic
import WasmFloat.Digits

namespace WasmFloat

/-- The number written by bytes, the most significant first. -/
def natOfBytes (bytes : List UInt8) : Nat :=
  bytes.foldl (fun value byte => 256 * value + byte.toNat) 0

/-- The `width` low bytes of a number, the most significant first. -/
def bytesOfNat : (width : Nat) → (n : Nat) → List UInt8
  | 0, _ => []
  | width + 1, n => bytesOfNat width (n / 256) ++ [UInt8.ofNat n]

@[simp] theorem length_bytesOfNat (width n : Nat) :
    (bytesOfNat width n).length = width := by
  induction width generalizing n with
  | zero => rfl
  | succ width ih => simp [bytesOfNat, ih]

namespace Binary64

def toBytes (x : Binary64) : List UInt8 := bytesOfNat 8 x.bits.toNat

def toBytesReversed (x : Binary64) : List UInt8 := x.toBytes.reverse

def ofBytes? (bytes : List UInt8) : Option Binary64 :=
  if bytes.length = 8 then some ⟨UInt64.ofNat (natOfBytes bytes)⟩ else none

@[simp] theorem length_toBytes (x : Binary64) : x.toBytes.length = 8 :=
  length_bytesOfNat 8 _

def ofBytesReversed? (bytes : List UInt8) : Option Binary64 :=
  ofBytes? bytes.reverse

def swapBytes (x : Binary64) : Binary64 :=
  ⟨UInt64.ofNat (natOfBytes x.toBytesReversed)⟩

def hexDigits (x : Binary64) : String :=
  String.ofList (Digits.paddedText 16 16 x.bits.toNat)

def debug (x : Binary64) : String := "F64(0x" ++ x.hexDigits ++ ")"

end Binary64

end WasmFloat
