import Mathlib.Tactic.Ring
import Mathlib.Data.List.Basic

/-! Fixed-width little-endian integers on byte lists. -/
namespace WindbgMcp.Library.LittleEndian

def encode : (width : Nat) → Nat → List UInt8
  | 0, _ => []
  | width + 1, value => UInt8.ofNat value :: encode width (value / 256)

def decode : List UInt8 → Nat
  | [] => 0
  | byte :: bytes => byte.toNat + 256 * decode bytes

@[simp] theorem length_encode (width value : Nat) :
    (encode width value).length = width := by
  induction width generalizing value with
  | zero => rfl
  | succ width ih => simp [encode, ih]

theorem decode_encode (width value : Nat) (h : value < 256 ^ width) :
    decode (encode width value) = value := by
  induction width generalizing value with
  | zero =>
    simp only [Nat.pow_zero, Nat.lt_one_iff] at h
    simp [encode, decode, h]
  | succ width ih =>
    have hquotient : value / 256 < 256 ^ width := by
      rw [Nat.pow_succ, Nat.mul_comm] at h
      exact Nat.div_lt_of_lt_mul h
    simp only [encode, decode, ih _ hquotient, UInt8.toNat_ofNat']
    omega

theorem encode_decode (bytes : List UInt8) : encode bytes.length (decode bytes) = bytes := by
  induction bytes with
  | nil => rfl
  | cons byte bytes ih =>
    have hbyte := byte.toNat_lt
    have hquotient : (byte.toNat + 256 * decode bytes) / 256 = decode bytes := by omega
    rw [List.length_cons, encode, decode, hquotient, ih]
    congr 1
    apply UInt8.toNat_inj.mp
    rw [UInt8.toNat_ofNat']
    omega

theorem decode_lt (bytes : List UInt8) : decode bytes < 256 ^ bytes.length := by
  induction bytes with
  | nil => exact Nat.one_pos
  | cons byte bytes ih =>
    have hbyte := byte.toNat_lt
    rw [List.length_cons, Nat.pow_succ, decode]
    omega

/-- The `width` bytes of `bytes` at offset `at`, read as one integer. -/
def slice (bytes : List UInt8) («at» width : Nat) : Nat :=
  decode ((bytes.drop «at»).take width)

theorem slice_append (bytes more : List UInt8) («at» width : Nat)
    (h : «at» + width ≤ bytes.length) :
    slice (bytes ++ more) «at» width = slice bytes «at» width := by
  unfold slice
  rw [List.drop_append_of_le_length (by omega),
    List.take_append_of_le_length (by simp; omega)]

theorem slice_encode (front more : List UInt8) (width value : Nat)
    (h : value < 256 ^ width) :
    slice (front ++ (encode width value ++ more)) front.length width = value := by
  unfold slice
  rw [List.drop_left, List.take_append_of_le_length (by simp),
    List.take_of_length_le (by simp), decode_encode width value h]

end WindbgMcp.Library.LittleEndian
