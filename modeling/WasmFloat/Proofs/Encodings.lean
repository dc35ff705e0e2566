import WasmFloat.Proofs.Order
import WasmFloat.Proofs.Transport

/-!
Different values have different encodings, but for the two zeros. Reading back
does not show this, because it refuses some of the negative integers.
-/

namespace WasmFloat.Binary64

variable {x y : Binary64}

/-- The value that an item was made from, up to the sign of zero. The negative
integers that `ofItem` refuses are taken back as well. -/
def origin? : Item → Option Binary64
  | .unsigned n => some (ofNat n.toNat)
  | .negative n => some (ofNat (n.toNat + 1)).neg
  | .float x => some x
  | item => (Nan.ofItem item).toOption.map Nan.value

theorem neg_abs (h : x.isNegative = true) : x.abs.neg = x :=
  ext_fields (by simp [h]) (by simp)

theorem origin?_toItem (x : Binary64) : origin? x.toItem = some x.arrived := by
  cases hnan : x.isNan with
  | true =>
      rw [arrived_eq_self (ne_negZero_of_isNan hnan), toItem_value ⟨x, hnan⟩]
      have hread : Nan.ofItem (Nan.toItem ⟨x, hnan⟩) = .ok ⟨x, hnan⟩ :=
        Nan.ofItem_eq_ok_iff.mpr rfl
      change (Nan.ofItem (Nan.toItem ⟨x, hnan⟩)).toOption.map Nan.value = some x
      rw [hread]
      rfl
  | false =>
      rw [toItem_number hnan]
      rcases Item.ofNumber_cases x with ⟨hinteger, hzero, n, hitem, hn⟩ |
        ⟨hinteger, hsign, n, hitem, hn⟩ | ⟨hitem, hfloat⟩
      · rw [hitem, origin?, hn, ofNat_whole hinteger, abs_eq_arrived hzero]
      · rw [hitem, origin?, hn, ofNat_whole hinteger, neg_abs hsign,
          arrived_of_ne_zero (by omega)]
      · rw [hitem, origin?, arrived_of_isFloatItem hfloat]

theorem toItem_of_isZero (h : x.isZero = true) : x.toItem = .unsigned 0 := by
  rw [toItem_number (isInfinite_of_isFinite (isFinite_of_isZero h)).2, Item.ofNumber,
    Item.ofNumberBelow]
  simp [h, isInteger_of_isZero h, whole_of_isZero h]

theorem eq_or_isZero_of_arrived (h : x.arrived = y.arrived) :
    x = y ∨ (x.isZero = true ∧ y.isZero = true) := by
  rw [arrived, arrived] at h
  split at h <;> split at h
  · exact Or.inr ⟨‹_›, ‹_›⟩
  · exact Or.inr ⟨‹_›, h ▸ rfl⟩
  · exact Or.inr ⟨h ▸ rfl, ‹_›⟩
  · exact Or.inl h

theorem toItem_eq_iff :
    x.toItem = y.toItem ↔ x = y ∨ (x.isZero = true ∧ y.isZero = true) := by
  constructor
  · intro hitems
    have horigins := congrArg origin? hitems
    rw [origin?_toItem, origin?_toItem] at horigins
    exact eq_or_isZero_of_arrived (Option.some.inj horigins)
  · rintro (rfl | ⟨hx, hy⟩)
    · rfl
    · rw [toItem_of_isZero hx, toItem_of_isZero hy]

/-- The bytes tell all values apart but the two zeros. -/
theorem transportBytes_eq_iff (x y : Binary64) :
    x.transportBytes = y.transportBytes ↔
      x = y ∨ (x.isZero = true ∧ y.isZero = true) := by
  rw [← toItem_eq_iff]
  constructor
  · intro hbytes
    -- Decoding gives the item back, whether or not the item is then accepted.
    have hitems := decode_transportBytes x
    rw [hbytes, decode_transportBytes y] at hitems
    exact (Except.ok.inj hitems).symm
  · intro hitems
    rw [transportBytes, transportBytes, hitems]

end WasmFloat.Binary64
