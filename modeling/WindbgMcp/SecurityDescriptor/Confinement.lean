import WindbgMcp.SecurityDescriptor.Layout

/-! The bytes that a descriptor is read from: its header, its identifiers and its lists,
each no longer than it says it is. -/
namespace WindbgMcp.SecurityDescriptor

open Library

def identifierSize (read : Reader) (address : UInt64) : Nat :=
  8 + (((read address 8).getD []).getD 1 0).toNat * 4

/-- Where a descriptor's bytes lie. -/
inductive Footprint (read : Reader) (address : UInt64) : UInt64 → Prop where
  | header (index : Nat) (hindex : index < 20) :
      Footprint read address (address + UInt64.ofNat index)
  | identifier {header : List UInt8} (hread : read address 20 = some header) (field index : Nat)
      (hfield : field = 4 ∨ field = 8) (hpresent : LittleEndian.slice header field 4 ≠ 0)
      (hindex : index <
        identifierSize read (address + UInt64.ofNat (LittleEndian.slice header field 4))) :
      Footprint read address
        (address + UInt64.ofNat (LittleEndian.slice header field 4) + UInt64.ofNat index)
  | list {header : List UInt8} (hread : read address 20 = some header) (field present index : Nat)
      (hfield : field = 16 ∧ present = seDaclPresent ∨ field = 12 ∧ present = seSaclPresent)
      (hpresent : LittleEndian.slice header 2 2 &&& present ≠ 0 ∧
        LittleEndian.slice header field 4 ≠ 0)
      (hindex : index <
        listSize read (address + UInt64.ofNat (LittleEndian.slice header field 4))) :
      Footprint read address
        (address + UInt64.ofNat (LittleEndian.slice header field 4) + UInt64.ofNat index)

def Agrees (region : UInt64 → Prop) (read other : Reader) : Prop :=
  ∀ address length, (∀ index < length, region (address + UInt64.ofNat index)) →
    other address length = read address length

section

variable {read other : Reader} {region : UInt64 → Prop} {address : UInt64}

theorem readSid_agrees {sid : Sid} (hagrees : Agrees region read other)
    (hregion : ∀ index < identifierSize read address, region (address + UInt64.ofNat index))
    (h : readSid read address = .ok sid) : readSid other address = .ok sid := by
  simp only [readSid, bind_eq_ok, readExactly_eq_ok] at h ⊢
  obtain ⟨header, ⟨hheader, hlong⟩, _, hcount, bytes, ⟨hbytes, hfull⟩, hsid⟩ := h
  have hsize : identifierSize read address = 8 + (header.getD 1 0).toNat * 4 := by
    rw [identifierSize, hheader]
    rfl
  have hfirst := hagrees address 8 fun index hindex => hregion index (by omega)
  have hwhole := hagrees address _ fun index hindex => hregion index (hsize ▸ hindex)
  exact ⟨header, ⟨hfirst.trans hheader, hlong⟩, (), hcount, bytes, ⟨hwhole.trans hbytes, hfull⟩,
    hsid⟩

theorem readAcl_agrees {acl : Acl} (hagrees : Agrees region read other)
    (hregion : ∀ index < listSize read address, region (address + UInt64.ofNat index))
    (h : readAcl read address = .ok acl) : readAcl other address = .ok acl := by
  rw [readAcl_eq_ok] at h ⊢
  obtain ⟨header, bytes, hheader, hlong, hmin, hmax, hcount, hbytes, hrest⟩ := h
  have hfirst := hagrees address 8 fun index hindex => hregion index (by omega)
  have hwhole := hagrees address _ hregion
  have hsize : listSize other address = listSize read address := by
    rw [listSize, hfirst, listSize]
  rw [hsize]
  exact ⟨header, bytes, hfirst.trans hheader, hlong, hmin, hmax, hcount, hwhole.trans hbytes,
    hrest⟩

theorem sidAt_agrees {offset : Nat} {sid : Option Sid} (hagrees : Agrees region read other)
    (hregion : offset ≠ 0 → ∀ index < identifierSize read (address + UInt64.ofNat offset),
      region (address + UInt64.ofNat offset + UInt64.ofNat index))
    (h : sidAt read address offset = .ok sid) : sidAt other address offset = .ok sid := by
  unfold sidAt at h ⊢
  split
  · rename_i hzero
    rwa [if_pos hzero] at h
  · rename_i hoffset
    rw [if_neg hoffset, map_eq_ok] at h
    obtain ⟨found, hfound, rfl⟩ := h
    exact map_eq_ok.mpr ⟨found, readSid_agrees hagrees (hregion hoffset) hfound, rfl⟩

theorem aclAt_agrees {control present offset : Nat} {acl : Option Acl}
    (hagrees : Agrees region read other)
    (hregion : control &&& present ≠ 0 ∧ offset ≠ 0 →
      ∀ index < listSize read (address + UInt64.ofNat offset),
        region (address + UInt64.ofNat offset + UInt64.ofNat index))
    (h : aclAt read address control present offset = .ok acl) :
    aclAt other address control present offset = .ok acl := by
  unfold aclAt at h ⊢
  split
  · rename_i hpresent
    rw [if_pos hpresent, map_eq_ok] at h
    obtain ⟨found, hfound, rfl⟩ := h
    exact map_eq_ok.mpr ⟨found, readAcl_agrees hagrees (hregion hpresent) hfound, rfl⟩
  · rename_i habsent
    rwa [if_neg habsent] at h

theorem readDescriptor_agrees {descriptor : Descriptor}
    (hagrees : Agrees (Footprint read address) read other)
    (h : readDescriptor read address = .ok descriptor) :
    readDescriptor other address = .ok descriptor := by
  simp only [readDescriptor, bind_eq_ok, readExactly_eq_ok] at h ⊢
  obtain ⟨header, ⟨hheader, hlong⟩, _, hrevision, _, hrelative, owner, howner, group, hgroup,
    dacl, hdacl, sacl, hsacl, hdescriptor⟩ := h
  have hfirst := hagrees address 20 Footprint.header
  refine ⟨header, ⟨hfirst.trans hheader, hlong⟩, (), hrevision, (), hrelative, owner, ?_, group,
    ?_, dacl, ?_, sacl, ?_, hdescriptor⟩
  · apply sidAt_agrees hagrees _ howner
    intro hpresent index hindex
    exact .identifier hheader 4 index (Or.inl rfl) hpresent hindex
  · apply sidAt_agrees hagrees _ hgroup
    intro hpresent index hindex
    exact .identifier hheader 8 index (Or.inr rfl) hpresent hindex
  · apply aclAt_agrees hagrees _ hdacl
    intro hpresent index hindex
    exact .list hheader 16 seDaclPresent index (Or.inl ⟨rfl, rfl⟩) hpresent hindex
  · apply aclAt_agrees hagrees _ hsacl
    intro hpresent index hindex
    exact .list hheader 12 seSaclPresent index (Or.inr ⟨rfl, rfl⟩) hpresent hindex

end

theorem agrees_of_byteAt {memory other : ByteMap} {region : UInt64 → Prop}
    (hwraps : other.wraps = memory.wraps)
    (hbytes : ∀ address, region address → other.byteAt address = memory.byteAt address) :
    Agrees region memory.read other.read := by
  intro address length hregion
  have hfrom : ∀ count start, (∀ index < count, region (start + UInt64.ofNat index)) →
      other.bytesFrom count start = memory.bytesFrom count start := by
    intro count
    induction count with
    | zero => exact fun _ _ => rfl
    | succ count ih =>
      intro start hstart
      have hhere : other.byteAt start = memory.byteAt start := by
        apply hbytes
        have hzero := hstart 0 (Nat.succ_pos count)
        rwa [show UInt64.ofNat 0 = 0 from rfl, UInt64.add_zero] at hzero
      have hnext : ∀ index < count, region (start + 1 + UInt64.ofNat index) := by
        intro index hindex
        have hafter := hstart (index + 1) (Nat.succ_lt_succ hindex)
        rwa [UInt64.ofNat_add, UInt64.add_comm (UInt64.ofNat index), ← UInt64.add_assoc] at hafter
      rw [ByteMap.bytesFrom, ByteMap.bytesFrom, hhere, ih (start + 1) hnext]
  rw [ByteMap.read, ByteMap.read, hwraps, hfrom length address hregion]

/-- What is laid out as a list is read as its entries, each from its own bytes; what is
read of a descriptor depends on no byte outside its header, its identifiers and its lists;
and entries are missing from a list only where it has no room for the header of one. -/
theorem acl_lossless_confined :
    (∀ (memory : ByteMap) (address : UInt64) (revision padding : UInt8) (reserved : List UInt8)
        (entries : List Entry) (slack : List UInt8),
      reserved.length = 2 → entries.length ≤ maxAces →
        (layout revision padding reserved entries slack).length < maxAclBytes →
          memory.read address (layout revision padding reserved entries slack).length =
              some (layout revision padding reserved entries slack) →
            ∃ aces, readAcl memory.read address = .ok ⟨revision, entries.length, aces⟩ ∧
              List.Forall₂ Decodes entries aces) ∧
      (∀ (memory other : ByteMap) (address : UInt64) (descriptor : Descriptor),
        readDescriptor memory.read address = .ok descriptor → other.wraps = memory.wraps →
          (∀ place, Footprint memory.read address place →
            other.byteAt place = memory.byteAt place) →
              readDescriptor other.read address = .ok descriptor) ∧
        ∀ (memory : ByteMap) (address : UInt64) (acl : Acl),
          readAcl memory.read address = .ok acl →
            ∃ bytes entries slack, memory.read address (listSize memory.read address) = some bytes ∧
              bytes.drop 8 = entries.flatMap Entry.bytes ++ slack ∧
                List.Forall₂ Decodes entries acl.aces ∧ entries.length ≤ acl.aceCount ∧
                  (entries.length < acl.aceCount → slack.length < 4) := by
  refine ⟨?_, ?_, ?_⟩
  · intro memory address revision padding reserved entries slack hreserved hcount hsmall hread
    exact readAcl_layout memory address revision padding hreserved hcount hsmall hread
  · intro memory other address descriptor h hwraps hbytes
    exact readDescriptor_agrees (agrees_of_byteAt hwraps hbytes) h
  · intro memory address acl h
    obtain ⟨bytes, entries, slack, hbytes, hrest⟩ := readAcl_sound h
    rw [List.take_of_length_le (ByteMap.length_read hbytes).le] at hrest
    exact ⟨bytes, entries, slack, hbytes, hrest⟩

namespace Sample

/-- An entry whose principal is a SID of one sub-authority under `authority`. -/
def entry (aceType authority sub mask : UInt8) : Entry where
  aceType := aceType
  flags := 0
  contents := [mask, 0, 0, 0, 1, 1, 0, 0, 0, 0, 0, authority, sub, 0, 0, 0]
  long := by simp

def entries : List Entry := [entry 0x00 1 0 1, entry 0x01 5 7 2]

def aces : List Ace :=
  [⟨.allow, 0x00, 0, 1, false, false, some ⟨"S-1-1-0", some "Everyone"⟩⟩,
    ⟨.deny, 0x01, 0, 2, false, false, some ⟨"S-1-5-7", some "ANONYMOUS LOGON"⟩⟩]

def memory : ByteMap where
  byteAt address :=
    ([1, 0, 0x04, 0x80, 0, 0, 0, 0, 0, 0, 0, 0, 0, 0, 0, 0, 20, 0, 0, 0] ++
      layout 2 0 [0, 0] entries [])[address.toNat]?
  wraps := false

def crowded : ByteMap where
  byteAt address := if 68 ≤ address.toNat then some 0xff else memory.byteAt address
  wraps := false

theorem footprint_lt {place : UInt64} (h : Footprint memory.read 0 place) :
    place.toNat < 68 := by
  have hheader : memory.read 0 20 =
      some [1, 0, 0x04, 0x80, 0, 0, 0, 0, 0, 0, 0, 0, 0, 0, 0, 0, 20, 0, 0, 0] := by
    decide +kernel
  cases h with
  | header index hindex =>
    have hall : ∀ index < 20, ((0 : UInt64) + UInt64.ofNat index).toNat < 68 := by decide
    exact hall index hindex
  | identifier hread field index hfield hpresent =>
    cases hheader.symm.trans hread
    rcases hfield with rfl | rfl <;> exact absurd rfl hpresent
  | list hread field present index hfield hpresent hindex =>
    cases hheader.symm.trans hread
    rcases hfield with ⟨rfl, rfl⟩ | ⟨rfl, rfl⟩
    · have hsize : listSize memory.read (0 + UInt64.ofNat 20) = 48 := by decide +kernel
      have hall : ∀ index < 48,
          ((0 : UInt64) + UInt64.ofNat 20 + UInt64.ofNat index).toNat < 68 := by
        decide
      exact hall index (hsize ▸ hindex)
    · exact absurd rfl hpresent.2

end Sample

open Sample in
theorem acl_lossless_confined_everyone :
    (∃ aces, readAcl memory.read 20 = .ok ⟨2, 2, aces⟩ ∧ List.Forall₂ Decodes entries aces) ∧
      crowded.byteAt 68 ≠ memory.byteAt 68 ∧
      readDescriptor crowded.read 0 = .ok ⟨1, 0x8004, none, none, some ⟨2, 2, aces⟩, none⟩ ∧
        ∃ bytes found slack, memory.read 20 (listSize memory.read 20) = some bytes ∧
          bytes.drop 8 = found.flatMap Entry.bytes ++ slack ∧
            List.Forall₂ Decodes found aces ∧ found.length ≤ 2 ∧
              (found.length < 2 → slack.length < 4) := by
  refine ⟨?_, by decide, ?_, ?_⟩
  · exact acl_lossless_confined.1 memory 20 2 0 [0, 0] entries [] (by decide) (by decide)
      (by decide) (by decide +kernel)
  · refine acl_lossless_confined.2.1 memory crowded 0 _ (by rfl) rfl fun place hplace => ?_
    exact if_neg (Nat.not_le.mpr (footprint_lt hplace))
  · exact acl_lossless_confined.2.2 memory 20 ⟨2, 2, aces⟩ (by rfl)

end WindbgMcp.SecurityDescriptor
