import WasmFloat.Proofs.Items
import WasmFloat.Transport.Basic

namespace WasmFloat

namespace Nan

theorem ofBinary64_eq_ok_iff {x : Binary64} {nan : Nan} :
    ofBinary64 x = .ok nan ↔ x = nan.value := by
  unfold ofBinary64
  constructor
  · intro h
    split at h
    · rw [← Except.ok.inj h]
    · exact nomatch h
  · rintro rfl
    exact dif_pos nan.isNan_value

theorem ofBytes_eq_ok_iff {data : List UInt8} {nan : Nan} :
    ofBytes data = .ok nan ↔ data = nan.value.toBytes := by
  rw [← Binary64.ofBytes?_eq_some_iff, ofBytes, Binary64.ofByteSlice]
  cases Binary64.ofBytes? data with
  | none => simp only [reduceCtorEq]
  | some x => rw [ofBinary64_eq_ok_iff, Option.some_inj]

theorem ofContent_eq_ok_iff {content : Item} {nan : Nan} :
    ofContent content = .ok nan ↔ content = nan.content := by
  cases content with
  | bytes data =>
      rw [Nan.content, Item.bytes.injEq, ← ofBytes_eq_ok_iff, ofContent]
      cases ofBytes data <;> simp [Except.mapError]
  | _ => simp only [ofContent, Nan.content, reduceCtorEq]

theorem ofItem_eq_ok_iff {item : Item} {nan : Nan} :
    ofItem item = .ok nan ↔ item = nan.toItem := by
  cases item with
  | tagged found content =>
      rw [toItem, Item.tagged.injEq, ← ofContent_eq_ok_iff, ofItem]
      split
      · rename_i htag
        rw [and_iff_right htag]
      · rename_i htag
        simp only [htag, reduceCtorEq, false_and]
  | _ => simp only [ofItem, toItem, reduceCtorEq]

theorem eq_toItem_iff {item : Item} {nan : Nan} :
    item = nan.toItem ↔ ∃ data, item = .tagged 102 (.bytes data) ∧
      data.length = 8 ∧ natOfBytes data = nan.value.bits.toNat := by
  constructor
  · rintro rfl
    exact ⟨nan.value.toBytes, rfl, Binary64.eq_toBytes_iff.mp rfl⟩
  · rintro ⟨data, rfl, hdata⟩
    rw [Binary64.eq_toBytes_iff.mpr hdata]
    rfl

theorem readsBack_toItem (nan : Nan) : Item.ReadsBack nan.toItem := by
  apply Item.ReadsBack.tagged
  apply Item.readsBack_bytes
  rw [Binary64.length_toBytes]
  decide

theorem encode_toItem (nan : Nan) :
    nan.toItem.encode = 0xD8 :: 0x66 :: 0x48 :: nan.value.toBytes := by
  rw [toItem, content, Item.encode, Item.encode, Binary64.length_toBytes]
  rfl

end Nan

namespace Binary64

theorem toItem_value (nan : Nan) : nan.value.toItem = nan.toItem :=
  dif_pos nan.isNan_value

theorem toItem_number {x : Binary64} (hnan : x.isNan = false) :
    x.toItem = Item.ofNumber x :=
  dif_neg (by rw [hnan]; exact Bool.false_ne_true)

theorem readsBack_toItem (x : Binary64) : Item.ReadsBack x.toItem := by
  cases hnan : x.isNan with
  | true =>
      rw [toItem_value ⟨x, hnan⟩]
      exact Nan.readsBack_toItem ⟨x, hnan⟩
  | false =>
      rw [toItem_number hnan]
      exact Item.readsBack_ofNumber hnan

theorem decode_transportBytes (x : Binary64) :
    Item.decode x.transportBytes = .ok x.toItem :=
  x.readsBack_toItem.decode_encode

theorem ofTransportBytes_transportBytes (x : Binary64) :
    ofTransportBytes x.transportBytes = ofItem x.toItem := by
  rw [ofTransportBytes, decode_transportBytes]

/-- On tagged items the reader of values follows the reader of NaNs, but for
the fault with which it meets another tag. -/
theorem ofItem_tagged (tag : UInt64) (content : Item) :
    ofItem (.tagged tag content) =
      if tag = Nan.tag then (Nan.ofItem (.tagged tag content)).map Nan.value
      else .error .wrongType := by
  rw [ofItem, Nan.ofItem]
  split <;> rfl

/-- Both readers take the same values from a tagged item. They refuse it for the
same fault, except that each has its own one for a tag that is not 102. -/
structure ReadersAgree (tag : UInt64) (content : Item) : Prop where
  ok_iff : ∀ x, ofItem (.tagged tag content) = .ok x ↔
    ∃ nan, Nan.ofItem (.tagged tag content) = .ok nan ∧ nan.value = x
  error_iff : tag = 102 → ∀ fault, ofItem (.tagged tag content) = .error fault ↔
    Nan.ofItem (.tagged tag content) = .error fault
  otherTag : tag ≠ 102 → ofItem (.tagged tag content) = .error .wrongType ∧
    Nan.ofItem (.tagged tag content) = .error (.wrongTag 102 tag.toNat)

theorem readersAgree (tag : UInt64) (content : Item) : ReadersAgree tag content := by
  have hvalue := ofItem_tagged tag content
  by_cases htag : tag = Nan.tag
  · rw [if_pos htag] at hvalue
    constructor
    · intro x
      rw [hvalue]
      cases Nan.ofItem (.tagged tag content) <;> simp [Except.map]
    · intro _ fault
      rw [hvalue]
      cases Nan.ofItem (.tagged tag content) <;> simp [Except.map]
    · exact fun hother => absurd htag hother
  · rw [if_neg htag] at hvalue
    have hnan : Nan.ofItem (.tagged tag content) = .error (.wrongTag 102 tag.toNat) :=
      if_neg htag
    constructor
    · intro x
      simp only [hvalue, hnan, reduceCtorEq, false_and, exists_false]
    · exact fun hsame => absurd hsame htag
    · exact fun _ => ⟨hvalue, hnan⟩

theorem ofItem_toItem_of_isNan {x : Binary64} (hnan : x.isNan = true) :
    ofItem x.toItem = .ok x := by
  rw [toItem_value ⟨x, hnan⟩]
  apply ((readersAgree Nan.tag _).ok_iff x).mpr
  exact ⟨⟨x, hnan⟩, Nan.ofItem_eq_ok_iff.mpr rfl, rfl⟩

/-- A NaN is read from tag 102 around the eight bytes of its pattern, and from
nothing else. Both readers do so, and every NaN is sent in this way. -/
theorem nan_transport :
    (∀ item x, (∃ nan, Nan.ofItem item = .ok nan ∧ nan.value = x) ↔
      x.isNan = true ∧ ∃ data, item = .tagged 102 (.bytes data) ∧
        data.length = 8 ∧ natOfBytes data = x.bits.toNat) ∧
    (∀ item nan, Nan.ofItem item = .ok nan →
      nan.toItem = item ∧ nan.value.toItem = item) ∧
    (∀ tag content, ReadersAgree tag content) ∧
    (∀ x, ∀ hnan : x.isNan = true,
      x.transportBytes = 0xD8 :: 0x66 :: 0x48 :: x.toBytes ∧
        (Nan.mk x hnan).toItem.encode = x.transportBytes ∧
        ∃ item, Item.decode x.transportBytes = .ok item ∧ ofItem item = .ok x ∧
          Nan.ofItem item = .ok ⟨x, hnan⟩) := by
  refine ⟨fun item x => ⟨?_, ?_⟩, ?_, readersAgree, ?_⟩
  · rintro ⟨nan, hread, rfl⟩
    exact ⟨nan.isNan_value, Nan.eq_toItem_iff.mp (Nan.ofItem_eq_ok_iff.mp hread)⟩
  · rintro ⟨hnan, hdata⟩
    exact ⟨⟨x, hnan⟩, Nan.ofItem_eq_ok_iff.mpr (Nan.eq_toItem_iff.mpr hdata), rfl⟩
  · intro item nan hread
    have hitem := Nan.ofItem_eq_ok_iff.mp hread
    exact ⟨hitem.symm, (toItem_value nan).trans hitem.symm⟩
  · intro x hnan
    have hitem : x.toItem = (Nan.mk x hnan).toItem := toItem_value ⟨x, hnan⟩
    have hbytes : (Nan.mk x hnan).toItem.encode = x.transportBytes := by
      rw [transportBytes, hitem]
    refine ⟨?_, hbytes, x.toItem, decode_transportBytes x,
      ofItem_toItem_of_isNan hnan, Nan.ofItem_eq_ok_iff.mpr hitem⟩
    rw [← hbytes, Nan.encode_toItem]

/-- A negative signalling NaN is read from its eleven bytes. -/
theorem nan_transport_signalling :
    (mk 0xFFF0000000000001).isNan = true ∧
      ofTransportBytes [0xD8, 0x66, 0x48, 0xFF, 0xF0, 0, 0, 0, 0, 0, 1] =
        .ok ⟨0xFFF0000000000001⟩ := by
  have hnan : (mk 0xFFF0000000000001).isNan = true := by decide
  obtain ⟨hbytes, -, item, hdecode, hread, -⟩ := nan_transport.2.2.2 _ hnan
  have hsent : [0xD8, 0x66, 0x48, 0xFF, 0xF0, 0, 0, 0, 0, 0, 1] =
      (mk 0xFFF0000000000001).transportBytes := by
    rw [hbytes]
    decide
  refine ⟨hnan, ?_⟩
  rw [hsent, ofTransportBytes, hdecode]
  exact hread

end Binary64

end WasmFloat
