import Mathlib.Data.List.Induction
import Mathlib.Tactic.Ring
import WasmFloat.Binary64.Bytes

namespace WasmFloat

theorem natOfBytes_append_byte (bytes : List UInt8) (byte : UInt8) :
    natOfBytes (bytes ++ [byte]) = 256 * natOfBytes bytes + byte.toNat := by
  rw [natOfBytes, List.foldl_append]
  rfl

theorem natOfBytes_bytesOfNat (width n : Nat) (h : n < 256 ^ width) :
    natOfBytes (bytesOfNat width n) = n := by
  induction width generalizing n with
  | zero =>
      have hzero : n = 0 := by simpa using h
      subst hzero
      rfl
  | succ width ih =>
      have hrest := ih (n / 256) (by rw [Nat.pow_succ] at h; omega)
      rw [bytesOfNat, natOfBytes_append_byte, hrest, UInt8.toNat_ofNat']
      omega

theorem natOfBytes_lt (bytes : List UInt8) : natOfBytes bytes < 256 ^ bytes.length := by
  induction bytes using List.reverseRecOn with
  | nil => exact Nat.one_pos
  | append_singleton bytes byte ih =>
      have hbyte := byte.toNat_lt
      rw [natOfBytes_append_byte, List.length_append, List.length_singleton,
        Nat.pow_succ]
      omega

theorem bytesOfNat_natOfBytes (bytes : List UInt8) :
    bytesOfNat bytes.length (natOfBytes bytes) = bytes := by
  induction bytes using List.reverseRecOn with
  | nil => rfl
  | append_singleton bytes byte ih =>
      have hbyte := byte.toNat_lt
      have hrest : (256 * natOfBytes bytes + byte.toNat) / 256 = natOfBytes bytes := by
        omega
      have hlast : UInt8.ofNat (256 * natOfBytes bytes + byte.toNat) = byte := by
        apply UInt8.toNat_inj.mp
        rw [UInt8.toNat_ofNat']
        omega
      rw [natOfBytes_append_byte, List.length_append, List.length_singleton,
        bytesOfNat, hrest, hlast, ih]

namespace Binary64

theorem natOfBytes_toBytes (x : Binary64) : natOfBytes x.toBytes = x.bits.toNat :=
  natOfBytes_bytesOfNat 8 _ x.bits.toNat_lt

@[simp] theorem ofBytes?_toBytes (x : Binary64) : ofBytes? x.toBytes = some x := by
  simp [ofBytes?, natOfBytes_toBytes]

theorem eq_toBytes_iff {bytes : List UInt8} {x : Binary64} :
    bytes = x.toBytes ↔ bytes.length = 8 ∧ natOfBytes bytes = x.bits.toNat := by
  constructor
  · rintro rfl
    exact ⟨length_toBytes x, natOfBytes_toBytes x⟩
  · rintro ⟨hlength, hbits⟩
    rw [toBytes, ← hlength, ← hbits, bytesOfNat_natOfBytes]

theorem ofBytes?_eq_some_iff {bytes : List UInt8} {x : Binary64} :
    ofBytes? bytes = some x ↔ bytes = x.toBytes := by
  constructor
  · intro h
    unfold ofBytes? at h
    split at h
    · rename_i hlength
      have hlt := natOfBytes_lt bytes
      rw [hlength] at hlt
      rw [eq_toBytes_iff, ← Option.some_inj.mp h]
      exact ⟨hlength, (Nat.mod_eq_of_lt hlt).symm⟩
    · exact nomatch h
  · rintro rfl
    exact ofBytes?_toBytes x

end Binary64

end WasmFloat
