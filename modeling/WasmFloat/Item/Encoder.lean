import WasmFloat.Binary64.Bytes
import WasmFloat.Item.Basic

namespace WasmFloat

namespace Binary64

/-- The word of another format that holds exactly this number; none for a
NaN. -/
def narrow? (F : Format) (x : Binary64) : Option Nat :=
  if x.isInfinite then some (F.word x.isNegative F.infinity)
  else if x.isFinite then
    (F.pattern? x.units F.coarseness).map (F.word x.isNegative)
  else none

/-- The value of a word of another format, no wider than binary64; every NaN
becomes the canonical one. -/
def widen (F : Format) (word : Nat) : Binary64 :=
  let negative := decide (F.signBit ≤ word)
  let pattern := word % F.signBit
  if pattern < F.infinity then
    rounded negative (F.units pattern <<< F.coarseness) 1
  else if pattern = F.infinity then
    ofMagnitude negative Format.binary64.infinity
  else nan

end Binary64

namespace Item

/-- The kinds of heads, by the upper three bits of the first byte. -/
inductive Kind
  | unsigned
  | negative
  | bytes
  | text
  | array
  | map
  | tag
  | simple
deriving DecidableEq

namespace Kind

def number : Kind → Nat
  | unsigned => 0
  | negative => 1
  | bytes => 2
  | text => 3
  | array => 4
  | map => 5
  | tag => 6
  | simple => 7

def ofNumber : Nat → Kind
  | 0 => unsigned
  | 1 => negative
  | 2 => bytes
  | 3 => text
  | 4 => array
  | 5 => map
  | 6 => tag
  | _ => simple

@[simp] theorem ofNumber_number (kind : Kind) : ofNumber kind.number = kind := by
  cases kind <;> rfl

def firstByte (kind : Kind) (low : Nat) : UInt8 :=
  UInt8.ofNat (32 * kind.number + low)

end Kind

def encodeHead (kind : Kind) (n : Nat) : List UInt8 :=
  if n < 24 then [kind.firstByte n]
  else if n < 0x100 then kind.firstByte 24 :: bytesOfNat 1 n
  else if n < 0x10000 then kind.firstByte 25 :: bytesOfNat 2 n
  else if n < 0x100000000 then kind.firstByte 26 :: bytesOfNat 4 n
  else kind.firstByte 27 :: bytesOfNat 8 n

/-- The half-precision word that stands for every NaN. -/
def nanWord16 : Nat := 0x7E00

def encodeFloat (x : Binary64) : List UInt8 :=
  if x.isNan then Kind.simple.firstByte 25 :: bytesOfNat 2 nanWord16
  else
    match x.narrow? .binary16, x.narrow? .binary32 with
    | some word, _ => Kind.simple.firstByte 25 :: bytesOfNat 2 word
    | none, some word => Kind.simple.firstByte 26 :: bytesOfNat 4 word
    | none, none => Kind.simple.firstByte 27 :: x.toBytes

mutual

def encode : Item → List UInt8
  | unsigned n => encodeHead .unsigned n.toNat
  | negative n => encodeHead .negative n.toNat
  | bytes data => encodeHead .bytes data.length ++ data
  | text content =>
      let data := content.toUTF8.toList
      encodeHead .text data.length ++ data
  | array elements =>
      encodeHead .array elements.length ++ encodeElements elements
  | map entries => encodeHead .map entries.length ++ encodeEntries entries
  | tagged tag content => encodeHead .tag tag.toNat ++ encode content
  | bool false => encodeHead .simple 20
  | bool true => encodeHead .simple 21
  | null => encodeHead .simple 22
  | float value => encodeFloat value

def encodeElements : List Item → List UInt8
  | [] => []
  | element :: elements => encode element ++ encodeElements elements

def encodeEntries : List (Item × Item) → List UInt8
  | [] => []
  | (key, value) :: entries =>
      encode key ++ encode value ++ encodeEntries entries

end

end Item

end WasmFloat
