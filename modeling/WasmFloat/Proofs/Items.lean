import WasmFloat.Item.Decoder
import WasmFloat.Proofs.Bytes
import WasmFloat.Proofs.Narrowing

namespace WasmFloat.Item

theorem Kind.number_lt (kind : Kind) : kind.number < 8 := by
  cases kind <;> decide

theorem Kind.toNat_firstByte (kind : Kind) {low : ℕ} (h : low < 32) :
    (kind.firstByte low).toNat = 32 * kind.number + low := by
  have hkind := kind.number_lt
  rw [firstByte, UInt8.toNat_ofNat']
  omega

theorem Head.read_cons {kind : Kind} {low width argument : ℕ}
    {body rest input : List UInt8}
    (hinput : input = kind.firstByte low :: (body ++ rest)) (hlow : low < 32)
    (hwidth : argumentWidth? low = some width) (hbody : body.length = width)
    (hargument : (if width = 0 then low else natOfBytes body) = argument)
    (hshort : (Head.mk kind width argument).isTooLong = false) :
    ∃ fewer, read input = .ok (⟨kind, width, argument⟩, ⟨rest, fewer⟩) := by
  subst hinput
  have hfirst := kind.toNat_firstByte hlow
  have hmod : (kind.firstByte low).toNat % 32 = low := by omega
  have hdiv : (kind.firstByte low).toNat / 32 = kind.number := by omega
  have htake : (body ++ rest).take width = body := by
    rw [← hbody]
    exact List.take_left
  have hdrop : (body ++ rest).drop width = rest := by
    rw [← hbody]
    exact List.drop_left
  have henough : ¬ (body ++ rest).length < width := by
    rw [List.length_append]
    omega
  refine ⟨by simp only [List.length_cons, List.length_append]; omega, ?_⟩
  unfold read
  simp only [hmod, hwidth, hdiv, htake, Kind.ofNumber_number]
  rw [if_neg henough]
  simp only [hargument, hshort]
  exact congrArg (fun rest => Except.ok (Head.mk kind width argument, rest))
    (Subtype.ext hdrop)

theorem Head.isTooLong_eq_false {kind : Kind} {width argument : ℕ}
    (h : leastArgument width ≤ argument) :
    (Head.mk kind width argument).isTooLong = false := by
  rw [isTooLong, decide_eq_false (Nat.not_lt.mpr h), Bool.false_and]

theorem Head.read_encodeHead (kind : Kind) {n : ℕ} (hn : n < 2 ^ 64)
    {rest input : List UInt8} (hinput : input = encodeHead kind n ++ rest) :
    ∃ width fewer, read input = .ok (⟨kind, width, n⟩, ⟨rest, fewer⟩) := by
  unfold encodeHead at hinput
  split at hinput
  · rename_i hsmall
    have hlow : input = kind.firstByte n :: ([] ++ rest) := hinput
    have hwidth : argumentWidth? n = some 0 := if_pos hsmall
    exact ⟨0, read_cons hlow (by omega) hwidth rfl (if_pos rfl)
      (isTooLong_eq_false (Nat.zero_le n))⟩
  split at hinput
  · rename_i hleast hfits
    exact ⟨1, read_cons hinput (by decide) rfl (length_bytesOfNat 1 n)
      (natOfBytes_bytesOfNat 1 n hfits) (isTooLong_eq_false (Nat.not_lt.mp hleast))⟩
  split at hinput
  · rename_i hleast hfits
    exact ⟨2, read_cons hinput (by decide) rfl (length_bytesOfNat 2 n)
      (natOfBytes_bytesOfNat 2 n hfits) (isTooLong_eq_false (Nat.not_lt.mp hleast))⟩
  split at hinput
  · rename_i hleast hfits
    exact ⟨4, read_cons hinput (by decide) rfl (length_bytesOfNat 4 n)
      (natOfBytes_bytesOfNat 4 n hfits) (isTooLong_eq_false (Nat.not_lt.mp hleast))⟩
  · rename_i hleast
    exact ⟨8, read_cons hinput (by decide) rfl (length_bytesOfNat 8 n)
      (natOfBytes_bytesOfNat 8 n hn) (isTooLong_eq_false (Nat.not_lt.mp hleast))⟩

theorem Head.read_float {low width word : ℕ} {rest input : List UInt8}
    (hinput : input = Kind.simple.firstByte low :: (bytesOfNat width word ++ rest))
    (hlow : low < 32) (hwidth : argumentWidth? low = some width)
    (hleast : 2 ≤ width) (hword : word < 256 ^ width) :
    ∃ fewer, read input = .ok (⟨.simple, width, word⟩, ⟨rest, fewer⟩) := by
  refine read_cons hinput hlow hwidth (length_bytesOfNat width word) ?_ ?_
  · rw [if_neg (by omega)]
    exact natOfBytes_bytesOfNat width word hword
  · rw [isTooLong, isFloat, decide_eq_true hleast]
    simp

/-- The item is read from the front of all bytes that start with its encoding. -/
def ReadsBack (item : Item) : Prop :=
  ∀ rest input, input = encode item ++ rest →
    ∃ fewer, read input = .ok (item, ⟨rest, fewer⟩)

theorem ReadsBack.decode_encode {item : Item} (h : ReadsBack item) :
    decode (encode item) = .ok item := by
  obtain ⟨fewer, hread⟩ := h [] (encode item) (List.append_nil _).symm
  unfold decode
  rw [hread]

theorem readsBack_unsigned (n : UInt64) : ReadsBack (unsigned n) := by
  intro rest input hinput
  obtain ⟨width, fewer, hhead⟩ := Head.read_encodeHead .unsigned n.toNat_lt hinput
  refine ⟨fewer, ?_⟩
  rw [read, hhead]
  simp only [UInt64.ofNat_toNat]

theorem readsBack_negative (n : UInt64) : ReadsBack (negative n) := by
  intro rest input hinput
  obtain ⟨width, fewer, hhead⟩ := Head.read_encodeHead .negative n.toNat_lt hinput
  refine ⟨fewer, ?_⟩
  rw [read, hhead]
  simp only [UInt64.ofNat_toNat]

theorem readsBack_bytes {data : List UInt8} (hlength : data.length < 2 ^ 64) :
    ReadsBack (bytes data) := by
  intro rest input hinput
  rw [encode, List.append_assoc] at hinput
  obtain ⟨width, fewer, hhead⟩ := Head.read_encodeHead .bytes hlength hinput
  have hle : rest.length ≤ (data ++ rest).length := by
    rw [List.length_append]
    omega
  have henough : ¬ (data ++ rest).length < data.length := by
    rw [List.length_append]
    omega
  refine ⟨hle.trans_lt fewer, ?_⟩
  rw [read, hhead]
  simp only [if_neg henough, List.take_left]
  exact congrArg (fun after => Except.ok (bytes data, after))
    (Subtype.ext List.drop_left)

theorem ReadsBack.tagged {content : Item} (h : ReadsBack content) (tag : UInt64) :
    ReadsBack (tagged tag content) := by
  intro rest input hinput
  rw [encode, List.append_assoc] at hinput
  obtain ⟨width, fewer, hhead⟩ := Head.read_encodeHead .tag tag.toNat_lt hinput
  obtain ⟨fewerStill, hcontent⟩ := h rest _ rfl
  refine ⟨fewerStill.trans fewer, ?_⟩
  rw [read, hhead]
  simp only [hcontent, UInt64.ofNat_toNat]

theorem read_simple {rest input : List UInt8} {width argument : ℕ} {item : Item}
    (hhead : ∃ fewer,
      Head.read input = .ok (⟨.simple, width, argument⟩, ⟨rest, fewer⟩))
    (hitem : ofSimple ⟨.simple, width, argument⟩ = .ok item) :
    ∃ fewer, read input = .ok (item, ⟨rest, fewer⟩) := by
  obtain ⟨fewer, hhead⟩ := hhead
  refine ⟨fewer, ?_⟩
  rw [read, hhead]
  simp only [hitem]

/-- No 64-bit argument stands for the value. -/
def IsFloatItem (x : Binary64) : Prop :=
  x.isInteger = true → 2 ^ 64 ≤ x.whole ∧ (x.isNegative = true → 2 ^ 64 < x.whole)

theorem isZero_eq_false {x : Binary64} (h : 0 < x.whole) : x.isZero = false := by
  rw [← Bool.not_eq_true]
  intro hzero
  rw [Binary64.whole_of_isZero hzero] at h
  exact absurd h (lt_irrefl 0)

theorem whole_pos {x : Binary64} (hinteger : x.isInteger = true)
    (hzero : x.isZero = false) : 0 < x.whole := by
  rw [← Bool.not_eq_true, ← Binary64.units_eq_zero_iff,
    Binary64.units_of_isInteger hinteger] at hzero
  exact Nat.pos_of_mul_pos_right (Nat.pos_of_ne_zero hzero)

theorem ofNumberBelow_eq_float {x : Binary64} (h : IsFloatItem x) {limit : ℕ}
    (hlimit : limit ≤ 2 ^ 64) : ofNumberBelow limit x = float x := by
  have hsize : UInt64.size = 2 ^ 64 := rfl
  unfold ofNumberBelow
  split
  · rfl
  · rename_i hinteger
    rw [Bool.not_eq_true', Bool.not_eq_false] at hinteger
    obtain ⟨hlarge, hnegative⟩ := h hinteger
    split
    · rename_i hsign
      rw [Bool.and_eq_true] at hsign
      have hover := hnegative hsign.1
      rw [if_neg (by omega)]
    · rw [if_neg (by omega)]

theorem ofNumber_cases (x : Binary64) :
    (x.isInteger = true ∧ (x.isNegative = true → x.isZero = true) ∧
      ∃ n, ofNumber x = unsigned n ∧ n.toNat = x.whole) ∨
    (x.isInteger = true ∧ x.isNegative = true ∧
      ∃ n, ofNumber x = negative n ∧ n.toNat + 1 = x.whole) ∨
    (ofNumber x = float x ∧ IsFloatItem x) := by
  have hsize : UInt64.size = 2 ^ 64 := rfl
  unfold ofNumber ofNumberBelow
  split
  · rename_i hfraction
    rw [Bool.not_eq_true'] at hfraction
    refine Or.inr (Or.inr ⟨rfl, fun hinteger => ?_⟩)
    rw [hfraction] at hinteger
    exact absurd hinteger Bool.false_ne_true
  rename_i hinteger
  rw [Bool.not_eq_true', Bool.not_eq_false] at hinteger
  split
  · rename_i hsign
    rw [Bool.and_eq_true, Bool.not_eq_true'] at hsign
    have hpos := whole_pos hinteger hsign.2
    split
    · refine Or.inr (Or.inl ⟨hinteger, hsign.1, _, rfl, ?_⟩)
      rw [UInt64.toNat_ofNat']
      omega
    · refine Or.inr (Or.inr ⟨rfl, fun _ => ⟨by omega, fun _ => by omega⟩⟩)
  · rename_i hsign
    rw [Bool.and_eq_true, Bool.not_eq_true', not_and, Bool.not_eq_false] at hsign
    split
    · refine Or.inl ⟨hinteger, hsign, _, rfl, ?_⟩
      rw [UInt64.toNat_ofNat']
      omega
    · refine Or.inr (Or.inr ⟨rfl, fun _ => ⟨by omega, fun hnegative => ?_⟩⟩)
      rw [isZero_eq_false (by omega)] at hsign
      exact absurd (hsign hnegative) Bool.false_ne_true

theorem whole_lt_of_narrow? {x : Binary64} (hfinite : x.isFinite = true) {word : ℕ}
    (h : x.narrow? .binary16 = some word) : x.whole < 2 ^ 16 := by
  have hinfinite : ¬ x.isInfinite = true := by
    simp [Binary64.isInfinite_of_isFinite hfinite]
  rw [Binary64.narrow?, if_neg hinfinite, if_pos hfinite] at h
  obtain ⟨pattern, hpattern, _⟩ := Option.map_eq_some_iff.mp h
  obtain ⟨hlt, hunits⟩ := Format.pattern?_eq_some hpattern
  have hbound := Format.binary16.units_strictMono hlt
  rw [show Format.binary16.units Format.binary16.infinity = 2 ^ 40 by decide] at hbound
  have hscale : 24 + Format.binary16.coarseness = 1074 := rfl
  rw [Binary64.whole, Nat.div_lt_iff_lt_mul Format.one_pos, ← hunits, Format.one_eq, ← hscale]
  generalize Format.binary16.coarseness = coarseness
  rw [Nat.shiftLeft_eq, Nat.pow_add, ← Nat.mul_assoc]
  exact Nat.mul_lt_mul_of_pos_right hbound (Nat.two_pow_pos _)

theorem ofWord16_of_narrow? {x : Binary64} (hnan : x.isNan = false)
    (hfloat : IsFloatItem x) {word : ℕ} (h : x.narrow? .binary16 = some word) :
    ofWord16 word = .ok (float x) := by
  have hinteger : x.isInteger = false := by
    rw [← Bool.not_eq_true]
    intro hinteger
    have hsmall := whole_lt_of_narrow? (Binary64.isFinite_of_isInteger hinteger) h
    have hlarge := (hfloat hinteger).1
    omega
  unfold ofWord16
  simp only [(Binary64.widen_of_narrow? h).1, hnan, hinteger, Bool.false_and]
  exact congrArg Except.ok (ofNumberBelow_eq_float hfloat le_rfl)

theorem not_integer_below {x : Binary64} (hfloat : IsFloatItem x) {bound : ℕ}
    (hbound : bound < 2 ^ 64) :
    (x.isInteger && decide (x.whole ≤ bound)) = false := by
  rw [← Bool.not_eq_true, Bool.and_eq_true, decide_eq_true_iff]
  rintro ⟨hinteger, hle⟩
  have hlarge := (hfloat hinteger).1
  omega

theorem ofWord32_of_narrow? {x : Binary64} (hnan : x.isNan = false)
    (hfloat : IsFloatItem x) (hhalf : x.narrow? .binary16 = none) {word : ℕ}
    (h : x.narrow? .binary32 = some word) : ofWord32 word = .ok (float x) := by
  unfold ofWord32
  simp only [(Binary64.widen_of_narrow? h).1, hnan, hhalf, Option.isSome_none,
    Bool.or_false, not_integer_below hfloat (show 0x80000000 < 2 ^ 64 by decide)]
  exact congrArg Except.ok (ofNumberBelow_eq_float hfloat (by decide))

theorem ofWord64_bits {x : Binary64} (hnan : x.isNan = false)
    (hfloat : IsFloatItem x) (hsingle : x.narrow? .binary32 = none) :
    ofWord64 x.bits.toNat = .ok (float x) := by
  unfold ofWord64
  simp only [UInt64.ofNat_toNat, hnan, hsingle, Option.isSome_none, Bool.or_false,
    not_integer_below hfloat (show 0x8000000000000000 < 2 ^ 64 by decide)]
  exact congrArg Except.ok (ofNumberBelow_eq_float hfloat le_rfl)

theorem readsBack_float {x : Binary64} (hnan : x.isNan = false)
    (hfloat : IsFloatItem x) : ReadsBack (float x) := by
  intro rest input hinput
  rw [encode, encodeFloat, if_neg (by rw [hnan]; exact Bool.false_ne_true)] at hinput
  cases hhalf : x.narrow? .binary16 with
  | some word =>
      rw [hhalf] at hinput
      have hword := (Binary64.widen_of_narrow? hhalf).2
      exact read_simple (Head.read_float hinput (by decide) rfl (by decide) hword)
        (ofWord16_of_narrow? hnan hfloat hhalf)
  | none =>
      cases hsingle : x.narrow? .binary32 with
      | some word =>
          rw [hhalf, hsingle] at hinput
          have hword := (Binary64.widen_of_narrow? hsingle).2
          exact read_simple (Head.read_float hinput (by decide) rfl (by decide) hword)
            (ofWord32_of_narrow? hnan hfloat hhalf hsingle)
      | none =>
          rw [hhalf, hsingle] at hinput
          exact read_simple
            (Head.read_float hinput (by decide) rfl (by decide) x.bits.toNat_lt)
            (ofWord64_bits hnan hfloat hsingle)

theorem readsBack_ofNumber {x : Binary64} (hnan : x.isNan = false) :
    ReadsBack (ofNumber x) := by
  rcases ofNumber_cases x with ⟨_, _, n, hitem, _⟩ | ⟨_, _, n, hitem, _⟩ |
    ⟨hitem, hfloat⟩
  · rw [hitem]
    exact readsBack_unsigned n
  · rw [hitem]
    exact readsBack_negative n
  · rw [hitem]
    exact readsBack_float hnan hfloat

end WasmFloat.Item
