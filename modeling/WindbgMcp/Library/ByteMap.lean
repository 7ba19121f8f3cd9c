import Mathlib.Data.List.Basic

/-! A partial byte map over 64-bit addresses.  A read succeeds if and only if every
one of its bytes is mapped, and then returns them; `wraps` says whether a read that
runs past the last address goes on at address zero or fails. -/
namespace WindbgMcp.Library

structure ByteMap where
  byteAt : UInt64 → Option UInt8
  wraps : Bool

namespace ByteMap

variable (memory : ByteMap)

/-- The `count` bytes from `address` on, if all of them are mapped. -/
def bytesFrom : Nat → UInt64 → Option (List UInt8)
  | 0, _ => some []
  | count + 1, address => do
    let byte ← memory.byteAt address
    let bytes ← bytesFrom count (address + 1)
    some (byte :: bytes)

def read (address : UInt64) (count : Nat) : Option (List UInt8) :=
  if memory.wraps ∨ address.toNat + count ≤ UInt64.size then memory.bytesFrom count address
  else none

variable {memory}

theorem length_bytesFrom {count : Nat} {address : UInt64} {bytes : List UInt8}
    (h : memory.bytesFrom count address = some bytes) : bytes.length = count := by
  induction count generalizing address bytes with
  | zero =>
    simp only [bytesFrom, Option.some.injEq] at h
    simp [← h]
  | succ count ih =>
    simp only [bytesFrom, Option.bind_eq_bind, Option.bind_eq_some_iff, Option.some.injEq] at h
    obtain ⟨byte, _, rest, hrest, hbytes⟩ := h
    rw [← hbytes, List.length_cons, ih hrest]

theorem length_read {address : UInt64} {count : Nat} {bytes : List UInt8}
    (h : memory.read address count = some bytes) : bytes.length = count := by
  unfold read at h
  split at h
  · exact length_bytesFrom h
  · cases h

theorem bytesFrom_take {count more : Nat} {address : UInt64} {bytes : List UInt8}
    (h : memory.bytesFrom (count + more) address = some bytes) :
    memory.bytesFrom count address = some (bytes.take count) := by
  induction count generalizing address bytes with
  | zero => rfl
  | succ count ih =>
    rw [Nat.succ_add] at h
    simp only [bytesFrom, Option.bind_eq_bind, Option.bind_eq_some_iff, Option.some.injEq] at h ⊢
    obtain ⟨byte, hbyte, rest, hrest, hbytes⟩ := h
    refine ⟨byte, hbyte, rest.take count, ih hrest, ?_⟩
    rw [← hbytes, List.take_succ_cons]

theorem bytesFrom_drop {count skipped : Nat} {address : UInt64} {bytes : List UInt8}
    (h : memory.bytesFrom (skipped + count) address = some bytes) :
    memory.bytesFrom count (address + UInt64.ofNat skipped) = some (bytes.drop skipped) := by
  induction skipped generalizing address bytes with
  | zero => simpa using h
  | succ skipped ih =>
    rw [Nat.succ_add] at h
    simp only [bytesFrom, Option.bind_eq_bind, Option.bind_eq_some_iff, Option.some.injEq] at h
    obtain ⟨byte, _, rest, hrest, hbytes⟩ := h
    have hnext : address + UInt64.ofNat (skipped + 1) = address + 1 + UInt64.ofNat skipped := by
      rw [UInt64.ofNat_add, UInt64.add_comm (UInt64.ofNat skipped), ← UInt64.add_assoc]
      rfl
    rw [hnext, ih hrest, ← hbytes, List.drop_succ_cons]

theorem bytesFrom_isSome {count : Nat} {address : UInt64}
    (h : ∀ skipped < count, (memory.byteAt (address + UInt64.ofNat skipped)).isSome) :
    (memory.bytesFrom count address).isSome := by
  induction count generalizing address with
  | zero => rfl
  | succ count ih =>
    have hfirst := h 0 (Nat.zero_lt_succ count)
    have hzero : address + UInt64.ofNat 0 = address := UInt64.add_zero address
    rw [hzero] at hfirst
    have hrest : (memory.bytesFrom count (address + 1)).isSome := by
      apply ih
      intro skipped hskipped
      have hnext := h (skipped + 1) (by omega)
      rwa [UInt64.ofNat_add, UInt64.add_comm (UInt64.ofNat skipped), ← UInt64.add_assoc] at hnext
    obtain ⟨byte, hbyte⟩ := Option.isSome_iff_exists.mp hfirst
    obtain ⟨bytes, hbytes⟩ := Option.isSome_iff_exists.mp hrest
    simp [bytesFrom, hbyte, hbytes]

theorem read_inside {address : UInt64} {count skipped size : Nat} {bytes : List UInt8}
    (h : memory.read address count = some bytes) (hin : skipped + size ≤ count) :
    memory.read (address + UInt64.ofNat skipped) size =
      some ((bytes.drop skipped).take size) := by
  unfold read at h ⊢
  split at h
  · rename_i hfits
    have hinside : memory.wraps = true ∨
        (address + UInt64.ofNat skipped).toNat + size ≤ UInt64.size := by
      apply hfits.imp_right
      intro hend
      have hsum : (address + UInt64.ofNat skipped).toNat =
          (address.toNat + skipped) % 2 ^ 64 := by
        rw [UInt64.toNat_add, UInt64.toNat_ofNat', Nat.add_mod_mod]
      have hle := Nat.mod_le (address.toNat + skipped) (2 ^ 64)
      omega
    rw [if_pos hinside]
    have hcount : skipped + (size + (count - skipped - size)) = count := by omega
    rw [← hcount] at h
    exact bytesFrom_take (bytesFrom_drop h)
  · cases h

end ByteMap

end WindbgMcp.Library
