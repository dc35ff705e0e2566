namespace WasmFloat.Digits

/-- The value of a digit of the radix, in either letter case. Only ASCII
characters are digits. -/
def value? (radix : Nat) (c : Char) : Option Nat :=
  let value :=
    if '0' ≤ c ∧ c ≤ '9' then c.toNat - '0'.toNat
    else if 'a' ≤ c ∧ c ≤ 'z' then c.toNat - 'a'.toNat + 10
    else if 'A' ≤ c ∧ c ≤ 'Z' then c.toNat - 'A'.toNat + 10
    else radix
  if value < radix then some value else none

theorem value?_lt {radix : Nat} {c : Char} {value : Nat}
    (h : value? radix c = some value) : value < radix := by
  unfold value? at h
  simp only [Option.ite_none_right_eq_some, Option.some.injEq] at h
  omega

/-- Whether the text continues a run up to a digit, with an underscore only
between two digits; `afterDigit` says that a digit stands right before it. -/
def continuesRun (radix : Nat) : (afterDigit : Bool) → List Char → Bool
  | afterDigit, [] => afterDigit
  | afterDigit, c :: rest =>
      if c = '_' then afterDigit && continuesRun radix false rest
      else (value? radix c).isSome && continuesRun radix true rest

def isRun (radix : Nat) (text : List Char) : Bool :=
  continuesRun radix false text

/-- The digit values of a run, without its underscores. -/
def ofRun? (radix : Nat) (text : List Char) : Option (List Nat) :=
  if isRun radix text then some (text.filterMap (value? radix)) else none

def toNat (radix : Nat) (digits : List Nat) : Nat :=
  digits.foldl (fun value digit => radix * value + digit) 0

/-- The digits of a number in lower case, without leading zeros. -/
def text (radix n : Nat) : List Char := Nat.toDigits radix n

def paddedText (radix width n : Nat) : List Char :=
  (text radix n).leftpad width '0'

def signedText (n : Int) : List Char :=
  if n < 0 then '-' :: text 10 n.natAbs else text 10 n.natAbs

def dropTrailingZeros (digits : List Char) : List Char :=
  (digits.reverse.dropWhile (· == '0')).reverse

def hexOfBytes (bytes : List UInt8) : List Char :=
  bytes.flatMap fun byte => paddedText 16 2 byte.toNat

end WasmFloat.Digits
