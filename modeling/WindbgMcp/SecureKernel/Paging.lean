import WindbgMcp.Library.Bits
import WindbgMcp.Library.LittleEndian

/-! Paging entries, as `decode_entry` reads them and as the processor follows them.
Addresses are the values of 64-bit words. -/
namespace WindbgMcp.SecureKernel
open Library

def pageSize : Nat := 0x1000

def pfnMask : Nat := 0x000FFFFFFFFFF000

def entryPresent : Nat := 1

def entryLarge : Nat := 0x80

def complement (word : Nat) : Nat := 2 ^ 64 - 1 - word

def page (address : Nat) : Nat := address &&& complement (pageSize - 1)

def offsetInPage (address : Nat) : Nat := address &&& (pageSize - 1)

def offset (address distance : Nat) : Nat := (address + distance) % 2 ^ 64

def canonical (va : Nat) : Nat :=
  if va &&& (1 <<< 47) ≠ 0 then va ||| 0xFFFF000000000000 else va

inductive EntryKind
  | table | leaf
  deriving DecidableEq, Repr

structure Decoded where
  kind : EntryKind
  address : Nat
  /-- The mapping's size, for a leaf. -/
  size : Nat
  malformed : Bool
  deriving DecidableEq, Repr

def decodeEntry (entry level : Nat) : Option Decoded :=
  if entry &&& entryPresent = 0 then none
  else
    let frame := entry &&& pfnMask
    if level = 0 then
      some { kind := .table, address := frame, size := 0, malformed := entry &&& entryLarge ≠ 0 }
    else if level = 3 then
      some { kind := .leaf, address := frame, size := pageSize, malformed := false }
    else if entry &&& entryLarge ≠ 0 then
      let size := 1 <<< (39 - 9 * level)
      -- Bit 12 is PAT and is legal; 13 up to the mapping's alignment are not.
      let reserved := frame &&& (size - 1) &&& complement 0x1FFF
      some { kind := .leaf, address := frame &&& complement (size - 1), size,
             malformed := reserved ≠ 0 }
    else some { kind := .table, address := frame, size := 0, malformed := false }

inductive Followed
  | fault
  | next (table : Nat)
  | frame (address : Nat)
  deriving DecidableEq, Repr

/-- `below` counts the levels under this entry's own: 3 for a PML4E, 0 for a PTE. -/
def follow (entry below : Nat) : Followed :=
  if entry.testBit 0 = false then .fault
  else if below = 0 then .frame (Bits.field 12 52 entry)
  else if entry.testBit 7 = false then .next (Bits.field 12 52 entry)
  -- Page size in a PML4E is reserved, and so is a large frame's address under its alignment.
  else if below = 3 ∨ Bits.field 13 (12 + 9 * below) entry ≠ 0 then .fault
  else .frame (Bits.field (12 + 9 * below) 52 entry)

def entryAt (memory : Nat → UInt8) (table index : Nat) : Nat :=
  LittleEndian.decode ((List.range 8).map fun i => memory (table + 8 * index + i))

/-- The processor's walk, from a table with `levels` levels in it. -/
def pageWalk (memory : Nat → UInt8) : (levels table va : Nat) → Option Nat
  | 0, _, _ => none
  | below + 1, table, va =>
    match follow (entryAt memory table (va / 2 ^ (12 + 9 * below) % 512)) below with
    | .fault => none
    | .next table => pageWalk memory below table va
    | .frame address => some (address + va % 2 ^ (12 + 9 * below))

def IsCanonical (va : Nat) : Prop := va < 2 ^ 47 ∨ 2 ^ 64 - 2 ^ 47 ≤ va ∧ va < 2 ^ 64

instance (va : Nat) : Decidable (IsCanonical va) := by
  unfold IsCanonical
  infer_instance

def hardwareWalk (memory : Nat → UInt8) (root va : Nat) : Option Nat :=
  if IsCanonical va then pageWalk memory 4 (page root) va else none

theorem complement_mask {low : Nat} (h : low ≤ 64) (value : Nat) :
    value &&& complement (2 ^ low - 1) = Bits.field low 64 value := by
  have hpos : 0 < 2 ^ low := Nat.two_pow_pos low
  have hle : 2 ^ low ≤ 2 ^ 64 := Nat.pow_le_pow_right (by decide) h
  have hmask : complement (2 ^ low - 1) = 2 ^ 64 - 2 ^ low := by
    unfold complement
    omega
  rw [hmask, Bits.and_mask h]

theorem page_eq {address : Nat} (h : address < 2 ^ 64) :
    page address = address / pageSize * pageSize := by
  unfold page
  rw [show pageSize = 2 ^ 12 from rfl, complement_mask (by decide)]
  unfold Bits.field
  rw [Nat.mod_eq_of_lt (by omega)]

theorem offsetInPage_eq (address : Nat) : offsetInPage address = address % pageSize := by
  unfold offsetInPage
  rw [show pageSize = 2 ^ 12 from rfl, Nat.and_two_pow_sub_one_eq_mod]

theorem canonical_eq {va : Nat} (h : va < 2 ^ 48) :
    canonical va = if va < 2 ^ 47 then va else va + 0xFFFF * 2 ^ 48 := by
  have hbit : va &&& 1 <<< 47 ≠ 0 ↔ ¬ va < 2 ^ 47 := by
    rw [Nat.one_shiftLeft, Bits.and_two_pow_ne_zero, Nat.testBit_eq_decide_div_mod_eq,
      decide_eq_true_eq]
    omega
  unfold canonical
  by_cases hlow : va < 2 ^ 47
  · rw [if_neg (fun h => hbit.mp h hlow), if_pos hlow]
  · rw [if_pos (hbit.mpr hlow), if_neg hlow, Nat.or_comm,
      show 0xFFFF000000000000 = 2 ^ 48 * 0xFFFF from rfl, ← Nat.two_pow_add_eq_or_of_lt h]
    omega

theorem pfnMask_eq (entry : Nat) : entry &&& pfnMask = Bits.field 12 52 entry :=
  Bits.and_mask (by decide : 12 ≤ 52) entry

theorem entryPresent_eq (entry : Nat) : entry &&& entryPresent = 0 ↔ entry.testBit 0 = false := by
  rw [← Bool.not_eq_true, ← Bits.and_two_pow_ne_zero, Decidable.not_not]
  rfl

theorem entryLarge_eq (entry : Nat) : entry &&& entryLarge ≠ 0 ↔ entry.testBit 7 = true :=
  Bits.and_two_pow_ne_zero entry 7

def Decoded.followed : Option Decoded → Followed
  | none => .fault
  | some decoded =>
    if decoded.malformed then .fault
    else match decoded.kind with
      | .table => .next decoded.address
      | .leaf => .frame decoded.address

theorem largeFrame_eq {bits : Nat} (hlow : 12 ≤ bits) (hhigh : bits ≤ 52) (entry : Nat) :
    entry &&& pfnMask &&& complement (2 ^ bits - 1) = Bits.field bits 52 entry := by
  rw [pfnMask_eq, complement_mask (by omega), Bits.field_field]
  rw [Nat.max_eq_right hlow, Nat.min_eq_left (by decide)]

theorem reserved_eq {bits : Nat} (hhigh : bits ≤ 52) (entry : Nat) :
    entry &&& pfnMask &&& (2 ^ bits - 1) &&& complement 0x1FFF =
      Bits.field 13 bits entry := by
  have hmod : ∀ value, value % 2 ^ bits = Bits.field 0 bits value := by simp [Bits.field]
  rw [show 0x1FFF = 2 ^ 13 - 1 from rfl, complement_mask (by decide),
    Nat.and_two_pow_sub_one_eq_mod, hmod, pfnMask_eq, Bits.field_field, Bits.field_field]
  congr 1
  omega

theorem decodeEntry_large {entry below : Nat} (hpresent : entry.testBit 0 = true)
    (hlarge : entry.testBit 7 = true) (hbelow : below = 1 ∨ below = 2) :
    decodeEntry entry (3 - below) = some
      { kind := .leaf, address := Bits.field (12 + 9 * below) 52 entry,
        size := 2 ^ (12 + 9 * below),
        malformed := Bits.field 13 (12 + 9 * below) entry ≠ 0 } := by
  have hlevel : 39 - 9 * (3 - below) = 12 + 9 * below := by omega
  unfold decodeEntry
  rw [if_neg (mt (entryPresent_eq entry).mp (by simp [hpresent])), if_neg (by omega),
    if_neg (by omega), if_pos ((entryLarge_eq entry).mpr hlarge)]
  simp only [hlevel, Nat.one_shiftLeft, largeFrame_eq (by omega : 12 ≤ 12 + 9 * below)
    (by omega : 12 + 9 * below ≤ 52), reserved_eq (by omega : 12 + 9 * below ≤ 52)]

theorem decodeEntry_small {entry below : Nat} (hpresent : entry.testBit 0 = true)
    (hbelow : below ≤ 3)
    (hsmall : below = 0 ∨ below = 3 ∨ entry.testBit 7 = false) :
    decodeEntry entry (3 - below) = some
      { kind := if below = 0 then .leaf else .table, address := Bits.field 12 52 entry,
        size := if below = 0 then pageSize else 0,
        malformed := below = 3 ∧ entry.testBit 7 = true } := by
  unfold decodeEntry
  rw [if_neg (mt (entryPresent_eq entry).mp (by simp [hpresent]))]
  simp only [pfnMask_eq, entryLarge_eq]
  by_cases hroot : below = 3
  · simp [hroot]
  by_cases hlast : below = 0
  · simp [hlast]
  have hbit : entry.testBit 7 = false := by tauto
  rw [if_neg (by omega), if_neg (by omega)]
  simp [hbit, hroot, hlast]

/-- An entry of the decoder that is not malformed is followed as the processor follows it. -/
theorem followed_decodeEntry {below : Nat} (hbelow : below ≤ 3) (entry : Nat) :
    Decoded.followed (decodeEntry entry (3 - below)) = follow entry below := by
  unfold follow
  by_cases hpresent : entry.testBit 0 = false
  · unfold decodeEntry
    rw [if_pos ((entryPresent_eq entry).mpr hpresent), if_pos hpresent]
    rfl
  rw [if_neg hpresent]
  replace hpresent : entry.testBit 0 = true := by simpa using hpresent
  by_cases hlarge : (below = 1 ∨ below = 2) ∧ entry.testBit 7 = true
  · rw [decodeEntry_large hpresent hlarge.2 hlarge.1, if_neg (by omega), if_neg (by simp [hlarge])]
    have hroot : below ≠ 3 := by omega
    simp [Decoded.followed, hroot]
  · have hsmall : below = 0 ∨ below = 3 ∨ entry.testBit 7 = false := by
      cases hbit : entry.testBit 7 with
      | false => simp
      | true => simp only [hbit, and_true] at hlarge; omega
    rw [decodeEntry_small hpresent hbelow hsmall]
    unfold Decoded.followed
    by_cases hlast : below = 0
    · simp [hlast]
    · cases hbit : entry.testBit 7 with
      | false => simp [hlast]
      | true =>
        have hroot : below = 3 := by simp only [hbit, and_true] at hlarge; omega
        simp [hroot]

theorem size_decodeEntry {entry below : Nat} (hbelow : below ≤ 3) {decoded : Decoded}
    (h : decodeEntry entry (3 - below) = some decoded) (hleaf : decoded.kind = .leaf) :
    decoded.size = 2 ^ (12 + 9 * below) ∧ decoded.address = Bits.field (12 + 9 * below) 52 entry ∧
      below ≤ 2 := by
  have hpresent : entry.testBit 0 = true := by
    apply Decidable.byContradiction
    intro hnot
    unfold decodeEntry at h
    rw [if_pos ((entryPresent_eq entry).mpr (by simpa using hnot))] at h
    cases h
  by_cases hlarge : (below = 1 ∨ below = 2) ∧ entry.testBit 7 = true
  · rw [decodeEntry_large hpresent hlarge.2 hlarge.1] at h
    obtain rfl := Option.some.inj h
    exact ⟨rfl, rfl, by omega⟩
  · have hsmall : below = 0 ∨ below = 3 ∨ entry.testBit 7 = false := by
      cases hbit : entry.testBit 7 with
      | false => simp
      | true => simp only [hbit, and_true] at hlarge; omega
    rw [decodeEntry_small hpresent hbelow hsmall] at h
    obtain rfl := Option.some.inj h
    have hlast : below = 0 := by
      apply Decidable.byContradiction
      intro hnot
      simp [hnot] at hleaf
    subst hlast
    exact ⟨rfl, rfl, by omega⟩

end WindbgMcp.SecureKernel
