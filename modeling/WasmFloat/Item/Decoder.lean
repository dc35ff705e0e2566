import WasmFloat.Item.Encoder
import WasmFloat.Item.Fault

/-!
Reading of encoded items. Only the encoding that the encoder would choose is
accepted, and the first fault from the left is the one reported. A reader
gives the bytes it leaves with a proof that they are fewer, by which the
recursion ends.
-/

namespace WasmFloat.Item

theorem length_drop_le (bytes : List UInt8) (count : Nat) :
    (bytes.drop count).length ≤ bytes.length := by
  rw [List.length_drop]
  exact Nat.sub_le _ _

/-- The start of an item: its kind, the bytes its argument takes after the
first one, and the argument. -/
structure Head where
  kind : Kind
  width : Nat
  argument : Nat

def argumentWidth? (low : Nat) : Option Nat :=
  if low < 24 then some 0
  else if low = 24 then some 1
  else if low = 25 then some 2
  else if low = 26 then some 4
  else if low = 27 then some 8
  else none

def leastArgument : (width : Nat) → Nat
  | 0 => 0
  | 1 => 24
  | 2 => 0x100
  | 4 => 0x10000
  | _ => 0x100000000

namespace Head

def isFloat (head : Head) : Bool :=
  head.kind == .simple && decide (2 ≤ head.width)

def isTooLong (head : Head) : Bool :=
  decide (head.argument < leastArgument head.width) && !head.isFloat

def read (input : List UInt8) :
    Except ItemFault (Head × { rest : List UInt8 // rest.length < input.length }) :=
  match input with
  | [] => .error .underrun
  | first :: rest =>
      let low := first.toNat % 32
      match argumentWidth? low with
      | none => .error .unsupportedHeaderValue
      | some width =>
          if rest.length < width then .error .underrun
          else
            let argument :=
              if width = 0 then low else natOfBytes (rest.take width)
            let head : Head := ⟨Kind.ofNumber (first.toNat / 32), width, argument⟩
            if head.isTooLong then .error .nonCanonicalNumeric
            else .ok (head, ⟨rest.drop width, Nat.lt_succ_of_le (length_drop_le rest width)⟩)

end Head

/-- A half-precision float: not an integer, and of the NaNs only one word. -/
def ofWord16 (word : Nat) : Except ItemFault Item :=
  let x := Binary64.widen .binary16 word
  if x.isNan && word != nanWord16 then .error .nonCanonicalNumeric
  else if x.isInteger then .error .nonCanonicalNumeric
  else .ok (ofNumber x)

/-- A single-precision float: no NaN, nothing that half precision holds, and
no integer up to `2 ^ 31` in size. Of the larger positive integers only those
of 32 bits become integers; the others stay floats. -/
def ofWord32 (word : Nat) : Except ItemFault Item :=
  let x := Binary64.widen .binary32 word
  if x.isNan || (x.narrow? .binary16).isSome then .error .nonCanonicalNumeric
  else if x.isInteger && decide (x.whole ≤ 0x80000000) then
    .error .nonCanonicalNumeric
  else .ok (ofNumberBelow 0x100000000 x)

/-- A double-precision float: no NaN, nothing that single precision holds,
and no integer up to `2 ^ 63` in size. -/
def ofWord64 (word : Nat) : Except ItemFault Item :=
  let x : Binary64 := ⟨UInt64.ofNat word⟩
  if x.isNan || (x.narrow? .binary32).isSome then .error .nonCanonicalNumeric
  else if x.isInteger && decide (x.whole ≤ 0x8000000000000000) then
    .error .nonCanonicalNumeric
  else .ok (ofNumber x)

def ofSimple (head : Head) : Except ItemFault Item :=
  match head.width with
  | 2 => ofWord16 head.argument
  | 4 => ofWord32 head.argument
  | 8 => ofWord64 head.argument
  | _ =>
      if head.argument = 20 then .ok (bool false)
      else if head.argument = 21 then .ok (bool true)
      else if head.argument = 22 then .ok null
      else .error .invalidSimpleValue

def ofText (data : List UInt8) : Except ItemFault Item :=
  match String.fromUTF8? ⟨data.toArray⟩ with
  | some content => .ok (text content)
  | none => .error .invalidString

/-- Checks the encoding of the next key against those of the keys before it,
the latest first. -/
def checkKey (previous : List (List UInt8)) (key : List UInt8) :
    Except ItemFault Unit :=
  if previous.contains key then .error .duplicateMapKey
  else
    match previous with
    | latest :: _ => if key < latest then .error .misorderedMapKey else .ok ()
    | [] => .ok ()

mutual

def read (input : List UInt8) :
    Except ItemFault (Item × { rest : List UInt8 // rest.length < input.length }) :=
  match Head.read input with
  | .error fault => .error fault
  | .ok (head, ⟨rest, fewer⟩) =>
      match head.kind with
      | .unsigned => .ok (unsigned (UInt64.ofNat head.argument), ⟨rest, fewer⟩)
      | .negative => .ok (negative (UInt64.ofNat head.argument), ⟨rest, fewer⟩)
      | .bytes =>
          if rest.length < head.argument then .error .underrun
          else
            .ok (bytes (rest.take head.argument),
              ⟨rest.drop head.argument,
                Nat.lt_of_le_of_lt (length_drop_le rest _) fewer⟩)
      | .text =>
          if rest.length < head.argument then .error .underrun
          else
            match ofText (rest.take head.argument) with
            | .error fault => .error fault
            | .ok item =>
                .ok (item, ⟨rest.drop head.argument,
                  Nat.lt_of_le_of_lt (length_drop_le rest _) fewer⟩)
      | .array =>
          match readElements head.argument rest with
          | .error fault => .error fault
          | .ok (elements, ⟨after, noMore⟩) =>
              .ok (array elements, ⟨after, Nat.lt_of_le_of_lt noMore fewer⟩)
      | .map =>
          match readEntries head.argument [] rest with
          | .error fault => .error fault
          | .ok (entries, ⟨after, noMore⟩) =>
              .ok (map entries, ⟨after, Nat.lt_of_le_of_lt noMore fewer⟩)
      | .tag =>
          match read rest with
          | .error fault => .error fault
          | .ok (content, ⟨after, fewerStill⟩) =>
              .ok (tagged (UInt64.ofNat head.argument) content,
                ⟨after, Nat.lt_trans fewerStill fewer⟩)
      | .simple =>
          match ofSimple head with
          | .error fault => .error fault
          | .ok item => .ok (item, ⟨rest, fewer⟩)
termination_by (input.length, 0)

def readElements (count : Nat) (input : List UInt8) :
    Except ItemFault (List Item × { rest : List UInt8 // rest.length ≤ input.length }) :=
  match count with
  | 0 => .ok ([], ⟨input, Nat.le_refl _⟩)
  | count + 1 =>
      match read input with
      | .error fault => .error fault
      | .ok (element, ⟨rest, fewer⟩) =>
          match readElements count rest with
          | .error fault => .error fault
          | .ok (elements, ⟨after, noMore⟩) =>
              .ok (element :: elements,
                ⟨after, Nat.le_of_lt (Nat.lt_of_le_of_lt noMore fewer)⟩)
termination_by (input.length, 1)

def readEntries (count : Nat) (previous : List (List UInt8))
    (input : List UInt8) :
    Except ItemFault
      (List (Item × Item) × { rest : List UInt8 // rest.length ≤ input.length }) :=
  match count with
  | 0 => .ok ([], ⟨input, Nat.le_refl _⟩)
  | count + 1 =>
      match read input with
      | .error fault => .error fault
      | .ok (key, ⟨rest, fewer⟩) =>
          match read rest with
          | .error fault => .error fault
          | .ok (value, ⟨after, fewerStill⟩) =>
              let written := encode key
              match checkKey previous written with
              | .error fault => .error fault
              | .ok () =>
                  match readEntries count (written :: previous) after with
                  | .error fault => .error fault
                  | .ok (entries, ⟨last, noMore⟩) =>
                      .ok ((key, value) :: entries,
                        ⟨last, Nat.le_of_lt (Nat.lt_of_le_of_lt noMore
                          (Nat.lt_trans fewerStill fewer))⟩)
termination_by (input.length, 1)

end

def decode (input : List UInt8) : Except ItemFault Item :=
  match read input with
  | .error fault => .error fault
  | .ok (item, ⟨[], _⟩) => .ok item
  | .ok (_, ⟨rest, _⟩) => .error (.unusedData rest.length)

end WasmFloat.Item
