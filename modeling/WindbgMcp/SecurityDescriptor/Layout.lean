import WindbgMcp.SecurityDescriptor.Reader
import WindbgMcp.Library.ByteMap
import Mathlib.Data.List.GetD

/-! How identifiers and lists are laid out in bytes, and that reading them finds what was
laid out and looks at no other bytes. -/
namespace WindbgMcp.SecurityDescriptor

open Library

/-! ## Identifiers -/

structure Principal where
  authority : Nat
  subs : List Nat
  authorityFits : authority < 256 ^ 6
  subsFit : ∀ sub ∈ subs, sub < 256 ^ 4
  fewSubs : subs.length ≤ maxSubauthorities

def Principal.bytes (principal : Principal) : List UInt8 :=
  [1, UInt8.ofNat principal.subs.length] ++ (LittleEndian.encode 6 principal.authority).reverse ++
    principal.subs.flatMap (LittleEndian.encode 4)

def Principal.sid (principal : Principal) : Sid where
  text := sidText 1 principal.authority principal.subs
  name := wellKnown principal.authority principal.subs

def OpensWith (bytes : List UInt8) (sid : Sid) : Prop :=
  ∃ (principal : Principal) (more : List UInt8),
    bytes = principal.bytes ++ more ∧ sid = principal.sid

theorem shiftLeft_or_byte (value : Nat) (byte : UInt8) :
    value <<< 8 ||| byte.toNat = byte.toNat + 256 * value := by
  rw [← Nat.shiftLeft_add_eq_or_of_lt byte.toNat_lt, Nat.shiftLeft_eq]
  omega

theorem foldl_bigEndian (bytes : List UInt8) :
    bytes.reverse.foldl (fun value byte => value <<< 8 ||| byte.toNat) 0 =
      LittleEndian.decode bytes := by
  rw [List.foldl_reverse]
  induction bytes with
  | nil => rfl
  | cons byte bytes ih => rw [List.foldr_cons, ih, shiftLeft_or_byte, LittleEndian.decode]

theorem flatMap_encode_drop {subs : List Nat} (width : Nat) (front : List UInt8) (index : Nat)
    (more : List UInt8) (hindex : index < subs.length) (hfit : ∀ sub ∈ subs, sub < 256 ^ width) :
    LittleEndian.slice (front ++ subs.flatMap (LittleEndian.encode width) ++ more)
      (front.length + index * width) width = subs.getD index 0 := by
  induction subs generalizing front index with
  | nil => exact absurd hindex (Nat.not_lt_zero _)
  | cons sub subs ih =>
    rw [List.forall_mem_cons] at hfit
    cases index with
    | zero =>
      rw [List.flatMap_cons, List.append_assoc, List.append_assoc, Nat.zero_mul, Nat.add_zero]
      exact LittleEndian.slice_encode front _ width sub hfit.1
    | succ index =>
      have hrest := ih (front ++ LittleEndian.encode width sub) index
        (Nat.lt_of_succ_lt_succ hindex) hfit.2
      rw [List.length_append, LittleEndian.length_encode] at hrest
      rw [List.flatMap_cons, List.getD_cons_succ, ← hrest]
      congr 1
      · simp only [List.append_assoc]
      · rw [Nat.succ_mul]
        omega

theorem length_flatMap_encode (subs : List Nat) (width : Nat) :
    (subs.flatMap (LittleEndian.encode width)).length = subs.length * width := by
  induction subs with
  | nil => exact (Nat.zero_mul width).symm
  | cons sub subs ih =>
    rw [List.flatMap_cons, List.length_append, LittleEndian.length_encode, ih, List.length_cons,
      Nat.succ_mul, Nat.add_comm]

theorem flatMap_encode_slices {bytes : List UInt8} (start count width : Nat)
    (h : start + count * width ≤ bytes.length) :
    ((List.range count).map fun index =>
        LittleEndian.slice bytes (start + index * width) width).flatMap
          (LittleEndian.encode width) = (bytes.drop start).take (count * width) := by
  induction count with
  | zero => simp
  | succ count ih =>
    rw [Nat.succ_mul] at h
    have hlength : ((bytes.drop (start + count * width)).take width).length = width := by
      rw [List.length_take, List.length_drop]
      omega
    have hlast := LittleEndian.encode_decode ((bytes.drop (start + count * width)).take width)
    rw [hlength] at hlast
    rw [List.range_succ, List.map_append, List.flatMap_append, ih (by omega), Nat.succ_mul,
      List.take_add, List.drop_drop]
    simp only [List.map_cons, List.map_nil, List.flatMap_cons, List.flatMap_nil, List.append_nil]
    rw [LittleEndian.slice, hlast]

theorem sidFrom_eq_ok {bytes : List UInt8} {sid : Sid} : sidFrom bytes = .ok sid ↔
    bytes.getD 0 0 = 1 ∧ (bytes.getD 1 0).toNat ≤ maxSubauthorities ∧
      8 + (bytes.getD 1 0).toNat * 4 ≤ bytes.length ∧
      sid = ⟨sidText 1 (LittleEndian.decode ((bytes.drop 2).take 6).reverse)
          ((List.range (bytes.getD 1 0).toNat).map fun index =>
            LittleEndian.slice bytes (8 + index * 4) 4),
        wellKnown (LittleEndian.decode ((bytes.drop 2).take 6).reverse)
          ((List.range (bytes.getD 1 0).toNat).map fun index =>
            LittleEndian.slice bytes (8 + index * 4) 4)⟩ := by
  have hauthority := foldl_bigEndian ((bytes.drop 2).take 6).reverse
  rw [List.reverse_reverse] at hauthority
  simp only [sidFrom, bind_eq_ok, insist_eq_ok, hauthority, exists_const]
  constructor
  · rintro ⟨-, hrevision, hcount, hlength, h⟩
    rw [hrevision] at h
    exact ⟨hrevision, hcount, hlength, (Except.ok.inj h).symm⟩
  · rintro ⟨hrevision, hcount, hlength, rfl⟩
    rw [hrevision]
    exact ⟨by omega, rfl, hcount, hlength, rfl⟩

/-- The identifier that bytes of a sufficient length spell. -/
def principalOf (bytes : List UInt8) (hlength : 8 ≤ bytes.length)
    (hcount : (bytes.getD 1 0).toNat ≤ maxSubauthorities) : Principal where
  authority := LittleEndian.decode ((bytes.drop 2).take 6).reverse
  subs := (List.range (bytes.getD 1 0).toNat).map fun index =>
    LittleEndian.slice bytes (8 + index * 4) 4
  authorityFits := by
    have hfits := LittleEndian.decode_lt ((bytes.drop 2).take 6).reverse
    have hsix : ((bytes.drop 2).take 6).reverse.length = 6 := by
      rw [List.length_reverse, List.length_take, List.length_drop]
      omega
    rwa [hsix] at hfits
  subsFit := by
    intro sub hsub
    obtain ⟨index, -, rfl⟩ := List.mem_map.mp hsub
    apply Nat.lt_of_lt_of_le (LittleEndian.decode_lt _)
    apply Nat.pow_le_pow_right (by decide)
    exact List.length_take_le 4 _
  fewSubs := by
    rw [List.length_map, List.length_range]
    exact hcount

theorem principalOf_bytes {bytes : List UInt8} (hrevision : bytes.getD 0 0 = 1)
    (hcount : (bytes.getD 1 0).toNat ≤ maxSubauthorities)
    (hlength : 8 + (bytes.getD 1 0).toNat * 4 ≤ bytes.length) :
    bytes = (principalOf bytes (by omega) hcount).bytes ++
      bytes.drop (8 + (bytes.getD 1 0).toNat * 4) := by
  obtain ⟨first, second, tail, rfl⟩ : ∃ first second tail, bytes = first :: second :: tail := by
    cases bytes with
    | nil => cases hlength
    | cons first bytes =>
      cases bytes with
      | nil => exact absurd hlength (by simp)
      | cons second tail => exact ⟨first, second, tail, rfl⟩
  have hsix : ((tail.take 6).reverse).length = 6 := by
    rw [List.length_reverse, List.length_take]
    simp only [List.length_cons] at hlength
    omega
  have hauthority := LittleEndian.encode_decode (tail.take 6).reverse
  rw [hsix] at hauthority
  have hsubs := flatMap_encode_slices 8 second.toNat 4 hlength
  obtain rfl : first = 1 := hrevision
  rw [Principal.bytes]
  simp only [principalOf, List.getD_cons_succ, List.getD_cons_zero, List.drop_succ_cons,
    List.drop_zero, List.length_map, List.length_range, UInt8.ofNat_toNat] at hsubs ⊢
  rw [hauthority, hsubs, List.reverse_reverse]
  have hrest : (1 :: second :: tail).drop (8 + second.toNat * 4) =
      (tail.drop 6).drop (second.toNat * 4) := by
    rw [List.drop_drop, show 8 + second.toNat * 4 = 6 + second.toNat * 4 + 1 + 1 by omega]
    rfl
  rw [hrest, List.append_assoc, List.take_append_drop, List.append_assoc, List.take_append_drop]
  rfl

theorem sidFrom_iff {bytes : List UInt8} {sid : Sid} :
    sidFrom bytes = .ok sid ↔ OpensWith bytes sid := by
  rw [sidFrom_eq_ok]
  constructor
  · rintro ⟨hrevision, hcount, hlength, rfl⟩
    exact ⟨_, _, principalOf_bytes hrevision hcount hlength, rfl⟩
  · rintro ⟨principal, more, rfl, rfl⟩
    have hfew := principal.fewSubs
    have hsix : (LittleEndian.encode 6 principal.authority).reverse.length = 6 := by
      rw [List.length_reverse, LittleEndian.length_encode]
    have hsecond : (UInt8.ofNat principal.subs.length).toNat = principal.subs.length := by
      rw [UInt8.toNat_ofNat']
      unfold maxSubauthorities at hfew
      omega
    have hlength : (principal.bytes ++ more).length =
        8 + principal.subs.length * 4 + more.length := by
      simp only [Principal.bytes, List.length_append, hsix, length_flatMap_encode,
        List.length_cons, List.length_nil]
    have hcount : ((principal.bytes ++ more).getD 1 0).toNat = principal.subs.length := hsecond
    have hauthority : ((principal.bytes ++ more).drop 2).take 6 =
        (LittleEndian.encode 6 principal.authority).reverse := by
      rw [Principal.bytes, List.append_assoc, List.append_assoc]
      exact List.take_left' hsix
    have hsubs : ((List.range principal.subs.length).map fun index =>
        LittleEndian.slice (principal.bytes ++ more) (8 + index * 4) 4) = principal.subs := by
      apply List.ext_getElem
      · rw [List.length_map, List.length_range]
      · intro index hindex hmem
        rw [List.getElem_map, List.getElem_range]
        have hslice := flatMap_encode_drop 4 ([1, UInt8.ofNat principal.subs.length] ++
          (LittleEndian.encode 6 principal.authority).reverse) index more hmem principal.subsFit
        rw [List.length_append, hsix, List.getD_eq_getElem?_getD, List.getElem?_eq_getElem hmem]
          at hslice
        exact hslice
    rw [hcount, hauthority, List.reverse_reverse,
      LittleEndian.decode_encode 6 _ principal.authorityFits, hsubs, hlength]
    exact ⟨rfl, hfew, Nat.le_add_right _ _, rfl⟩

/-! ## Entries -/

/-- An entry of a list: its type, its flags and what it holds behind its header, at least
the four bytes of a mask. -/
structure Entry where
  aceType : UInt8
  flags : UInt8
  contents : List UInt8
  long : 4 ≤ contents.length

namespace Entry

def size (entry : Entry) : Nat := 4 + entry.contents.length

def bytes (entry : Entry) : List UInt8 :=
  [entry.aceType, entry.flags] ++ LittleEndian.encode 2 entry.size ++ entry.contents

theorem length_bytes (entry : Entry) : entry.bytes.length = entry.size := by
  simp only [bytes, size, List.length_append, List.length_cons, List.length_nil,
    LittleEndian.length_encode]

/-- The entry's application data, behind an identifier of the count it gives, opens with
the signature. -/
def Signed (entry : Entry) : Prop :=
  ∃ count : UInt8, (entry.contents.drop 4)[1]? = some count ∧
    ((entry.contents.drop 4).drop (8 + 4 * count.toNat)).take 4 = conditionalAceSignature

end Entry

/-- What is decoded of an entry, from its own bytes. -/
structure Decodes (entry : Entry) (ace : Ace) : Prop where
  kind : ace.kind = AceKind.ofType entry.aceType
  aceType : ace.aceType = entry.aceType
  flags : ace.flags = entry.flags
  mask : ace.mask = LittleEndian.decode (entry.contents.take 4)
  callback : ace.callback = true ↔ 0x09 ≤ entry.aceType ∧ entry.aceType ≤ 0x10
  conditional : ace.conditional = true ↔
    (entry.aceType = 0x09 ∨ entry.aceType = 0x0a ∨ entry.aceType = 0x0d) ∧ entry.Signed
  sid : ∀ sid, ace.sid = some sid ↔
    ace.kind.carriesSid = true ∧ OpensWith (entry.contents.drop 4) sid

theorem isConditional_iff (entry : Entry) : isConditional entry.aceType entry.bytes = true ↔
    (entry.aceType = 0x09 ∨ entry.aceType = 0x0a ∨ entry.aceType = 0x0d) ∧ entry.Signed := by
  have hdrop (count : Nat) : entry.bytes.drop (16 + 4 * count) =
      (entry.contents.drop 4).drop (8 + 4 * count) := by
    rw [show 16 + 4 * count = 8 + (8 + 4 * count) by omega, ← List.drop_drop]
    rfl
  have hcount : entry.bytes[9]? = (entry.contents.drop 4)[1]? := by
    rw [List.getElem?_drop]
    rfl
  rw [isConditional, Bool.and_eq_true]
  apply and_congr
  · simp only [Bool.or_eq_true, beq_iff_eq, or_assoc]
  · rw [hcount, Entry.Signed]
    cases hfound : (entry.contents.drop 4)[1]? with
    | none => simp
    | some count =>
      simp only [Option.any_some, Option.some.injEq, hdrop, Bool.and_eq_true, decide_eq_true_eq,
        beq_iff_eq, exists_eq_left']
      apply and_iff_right_of_imp
      intro hsigned
      have hlength := congrArg List.length hsigned
      rw [← hdrop, List.length_take, List.length_drop] at hlength
      have hfour : conditionalAceSignature.length = 4 := rfl
      omega

theorem readAce_entry (entry : Entry) :
    ∃ ace, readAce entry.aceType entry.flags entry.bytes = .ok ace ∧ Decodes entry ace := by
  have hlength := entry.length_bytes
  have hlong := entry.long
  unfold Entry.size at hlength
  have hmask : LittleEndian.slice entry.bytes 4 4 = LittleEndian.decode (entry.contents.take 4) :=
    rfl
  have hdata : entry.bytes.drop 8 = entry.contents.drop 4 := rfl
  unfold readAce
  rw [insist, if_pos (by omega)]
  refine ⟨_, rfl, rfl, rfl, rfl, hmask, ?_, isConditional_iff entry, ?_⟩
  · simp
  · intro sid
    rw [← sidFrom_iff, ← hdata, ← toOption_eq_some]
    exact Option.ite_none_right_eq_some

theorem exists_entry {body : List UInt8} (hlong : 8 ≤ body.length)
    (hsize : LittleEndian.slice body 2 2 = body.length) :
    ∃ entry : Entry, entry.bytes = body ∧ entry.aceType = body.getD 0 0 ∧
      entry.flags = body.getD 1 0 := by
  obtain ⟨first, second, third, fourth, rest, rfl⟩ :
      ∃ first second third fourth rest, body = first :: second :: third :: fourth :: rest := by
    rcases body with _ | ⟨first, _ | ⟨second, _ | ⟨third, _ | ⟨fourth, rest⟩⟩⟩⟩
    iterate 4 exact absurd hlong (by simp)
    exact ⟨first, second, third, fourth, rest, rfl⟩
  simp only [List.length_cons] at hlong
  refine ⟨⟨first, second, rest, by omega⟩, ?_, rfl, rfl⟩
  have hsame := LittleEndian.encode_decode [third, fourth]
  have hgiven : LittleEndian.decode [third, fourth] = 4 + rest.length := by
    change LittleEndian.decode [third, fourth] = rest.length + 1 + 1 + 1 + 1 at hsize
    omega
  rw [hgiven] at hsame
  change [first, second] ++ LittleEndian.encode 2 (4 + rest.length) ++ rest = _
  rw [show LittleEndian.encode 2 (4 + rest.length) = [third, fourth] from hsame]
  rfl

/-! ## Lists -/

def layout (revision padding : UInt8) (reserved : List UInt8) (entries : List Entry)
    (slack : List UInt8) : List UInt8 :=
  [revision, padding] ++
    LittleEndian.encode 2 (8 + (entries.flatMap Entry.bytes).length + slack.length) ++
      LittleEndian.encode 2 entries.length ++ reserved ++ entries.flatMap Entry.bytes ++ slack

theorem getD_of_drop {bytes rest : List UInt8} {cursor : Nat} (h : bytes.drop cursor = rest)
    (index : Nat) : bytes.getD (cursor + index) 0 = rest.getD index 0 := by
  rw [List.getD_eq_getElem?_getD, List.getD_eq_getElem?_getD, ← h, List.getElem?_drop]

theorem slice_of_drop {bytes rest : List UInt8} {cursor : Nat} (h : bytes.drop cursor = rest)
    (index width : Nat) :
    LittleEndian.slice bytes (cursor + index) width = LittleEndian.slice rest index width := by
  rw [LittleEndian.slice, LittleEndian.slice, ← h, List.drop_drop]

theorem slice_entry (entry : Entry) (rest : List UInt8) (hsmall : entry.size < 256 ^ 2) :
    LittleEndian.slice (entry.bytes ++ rest) 2 2 = entry.size := by
  have hslice := LittleEndian.slice_encode [entry.aceType, entry.flags]
    (entry.contents ++ rest) 2 entry.size hsmall
  rw [← hslice, Entry.bytes]
  simp only [List.append_assoc, List.length_cons, List.length_nil]

theorem readAces_step {bytes rest : List UInt8} {size cursor : Nat} {entry : Entry} (count : Nat)
    (hstands : bytes.drop cursor = entry.bytes ++ rest) (hinside : cursor + entry.size ≤ size)
    (hsmall : entry.size < 256 ^ 2) :
    ∃ ace, Decodes entry ace ∧ ∀ aces, readAces bytes size (count + 1) cursor = .ok aces ↔
      ∃ later, readAces bytes size count (cursor + entry.size) = .ok later ∧
        aces = ace :: later := by
  have hlong := entry.long
  have hsize : entry.size = 4 + entry.contents.length := rfl
  obtain ⟨ace, hace, hentry⟩ := readAce_entry entry
  refine ⟨ace, hentry, ?_⟩
  intro aces
  have htype : bytes.getD cursor 0 = entry.aceType := getD_of_drop hstands 0
  have hflags : bytes.getD (cursor + 1) 0 = entry.flags := getD_of_drop hstands 1
  have hgiven : LittleEndian.slice bytes (cursor + 2) 2 = entry.size :=
    (slice_of_drop hstands 2 2).trans (slice_entry entry rest hsmall)
  have hbody : (bytes.drop cursor).take entry.size = entry.bytes := by
    rw [hstands]
    exact List.take_left' entry.length_bytes
  rw [readAces, if_neg (by omega)]
  simp only [htype, hflags, hgiven, hbody, hace, bind_eq_ok, insist_eq_ok, Except.ok.injEq,
    exists_const, exists_eq_left', and_iff_right (show 4 ≤ entry.size ∧ cursor + entry.size ≤ size
      from ⟨by omega, hinside⟩)]
  apply exists_congr
  intro later
  rw [eq_comm (a := aces)]

theorem readAces_layout {bytes slack : List UInt8} {size cursor : Nat} (entries : List Entry)
    (hstands : bytes.drop cursor = entries.flatMap Entry.bytes ++ slack)
    (hinside : cursor + (entries.flatMap Entry.bytes).length ≤ size) (hsmall : size < 256 ^ 2) :
    ∃ aces, readAces bytes size entries.length cursor = .ok aces ∧
      List.Forall₂ Decodes entries aces := by
  induction entries generalizing cursor with
  | nil => exact ⟨[], rfl, .nil⟩
  | cons entry entries ih =>
    rw [List.flatMap_cons, List.length_append, entry.length_bytes] at hinside
    rw [List.flatMap_cons, List.append_assoc] at hstands
    have hroom : cursor + entry.size ≤ size := by omega
    obtain ⟨ace, hentry, hstep⟩ := readAces_step entries.length hstands hroom (by omega)
    have hnext : bytes.drop (cursor + entry.size) = entries.flatMap Entry.bytes ++ slack := by
      rw [← List.drop_drop, hstands, ← entry.length_bytes, List.drop_left]
    obtain ⟨aces, haces, hdecodes⟩ := ih hnext (by omega)
    exact ⟨ace :: aces, (hstep _).mpr ⟨aces, haces, rfl⟩, .cons hentry hdecodes⟩

theorem readAce_long {aceType flags : UInt8} {body : List UInt8} {ace : Ace}
    (h : readAce aceType flags body = .ok ace) : 8 ≤ body.length := by
  simp only [readAce, bind_eq_ok, insist_eq_ok] at h
  obtain ⟨-, hlong, -⟩ := h
  exact hlong

/-- What is returned was laid out, and fewer entries than the header says stand only in
front of less than the header of one. -/
theorem readAces_sound {bytes : List UInt8} {size count cursor : Nat} {aces : List Ace}
    (h : readAces bytes size count cursor = .ok aces) (hcursor : cursor ≤ size)
    (hsize : size ≤ bytes.length) (hsmall : size < 256 ^ 2) :
    ∃ entries slack, (bytes.take size).drop cursor = entries.flatMap Entry.bytes ++ slack ∧
      List.Forall₂ Decodes entries aces ∧ entries.length ≤ count ∧
        (entries.length < count → slack.length < 4) := by
  induction count generalizing cursor aces with
  | zero =>
    cases h
    exact ⟨[], _, rfl, .nil, Nat.le_refl _, fun hlt => absurd hlt (Nat.not_lt_zero _)⟩
  | succ count ih =>
    by_cases hroom : size < cursor + 4
    · rw [readAces, if_pos hroom] at h
      cases h
      refine ⟨[], _, rfl, .nil, Nat.zero_le _, ?_⟩
      intro _
      rw [List.length_drop, List.length_take]
      omega
    · have hread := h
      rw [readAces, if_neg hroom] at hread
      simp only [bind_eq_ok, insist_eq_ok] at hread
      obtain ⟨_, ⟨hheader, hend⟩, ace, hace, -⟩ := hread
      have hbody := List.take_append_drop (LittleEndian.slice bytes (cursor + 2) 2)
        (bytes.drop cursor)
      have hlength : ((bytes.drop cursor).take
          (LittleEndian.slice bytes (cursor + 2) 2)).length =
            LittleEndian.slice bytes (cursor + 2) 2 := by
        rw [List.length_take, List.length_drop]
        omega
      have hgiven := slice_of_drop hbody.symm 2 2
      generalize LittleEndian.slice bytes (cursor + 2) 2 = given at *
      have hlong := readAce_long hace
      rw [LittleEndian.slice_append _ _ 2 2 (by omega)] at hgiven
      obtain ⟨entry, hentry, -, -⟩ := exists_entry hlong (hgiven.symm.trans hlength.symm)
      have hsame : given = entry.size := by
        rw [← hlength, ← hentry, entry.length_bytes]
      rw [← hentry, hsame] at hbody
      rw [hsame] at hend
      obtain ⟨ace', hdecodes, hstep⟩ := readAces_step count hbody.symm hend (by omega)
      obtain ⟨later, hlater, rfl⟩ := (hstep aces).mp h
      obtain ⟨entries, slack, hrest, hall, hfew, hshort⟩ := ih hlater hend
      refine ⟨entry :: entries, slack, ?_, .cons hdecodes hall, Nat.succ_le_succ hfew, ?_⟩
      · have hfront : ((bytes.take size).drop cursor).take entry.size = entry.bytes := by
          rw [List.drop_take, List.take_take, Nat.min_eq_left (by omega), ← hbody]
          exact List.take_left' entry.length_bytes
        have hsplit := List.take_append_drop entry.size ((bytes.take size).drop cursor)
        rw [hfront, List.drop_drop, hrest] at hsplit
        rw [List.flatMap_cons, List.append_assoc, hsplit]
      · intro hlt
        exact hshort (Nat.lt_of_succ_lt_succ hlt)

theorem readExactly_eq_ok {read : Reader} {address : UInt64} {length : Nat} {bytes : List UInt8} :
    readExactly read address length = .ok bytes ↔
      read address length = some bytes ∧ length ≤ bytes.length := by
  unfold readExactly
  cases hread : read address length with
  | none => simp
  | some other =>
    dsimp only
    split
    · rename_i hshort
      simp only [reduceCtorEq, Option.some.injEq, false_iff]
      rintro ⟨rfl, hlong⟩
      omega
    · rename_i hlong
      simp only [Except.ok.injEq, Option.some.injEq]
      apply (and_iff_left_of_imp _).symm
      rintro rfl
      omega

def listSize (read : Reader) (address : UInt64) : Nat :=
  LittleEndian.slice ((read address 8).getD []) 2 2

theorem readAcl_eq_ok {read : Reader} {address : UInt64} {acl : Acl} :
    readAcl read address = .ok acl ↔
      ∃ header bytes, read address 8 = some header ∧ 8 ≤ header.length ∧
        8 ≤ listSize read address ∧ listSize read address ≤ maxAclBytes ∧
          LittleEndian.slice header 4 2 ≤ maxAces ∧
            read address (listSize read address) = some bytes ∧
              listSize read address ≤ bytes.length ∧
                acl.revision = header.getD 0 0 ∧ acl.aceCount = LittleEndian.slice header 4 2 ∧
                  readAces bytes (listSize read address) acl.aceCount 8 = .ok acl.aces := by
  simp only [readAcl, bind_eq_ok, readExactly_eq_ok, insist_eq_ok, exists_const, listSize]
  constructor
  · rintro ⟨header, ⟨hheader, hlong⟩, hsize, hcount, bytes, hbytes, aces, haces, h⟩
    cases h
    rw [hheader]
    exact ⟨header, bytes, rfl, hlong, hsize.1, hsize.2, hcount, hbytes.1, hbytes.2, rfl, rfl,
      haces⟩
  · rintro ⟨header, bytes, hheader, hlong, hmin, hmax, hcount, hbytes, hfull, hrevision, hnumber,
      haces⟩
    rw [hheader] at hmin hmax hbytes hfull haces
    rw [hnumber] at haces
    refine ⟨header, ⟨hheader, hlong⟩, ⟨hmin, hmax⟩, hcount, bytes, ⟨hbytes, hfull⟩, acl.aces,
      haces, ?_⟩
    rw [← hrevision, ← hnumber]

/-- Where the fields of a list that is laid out stand. -/
structure Fields (image : List UInt8) (entries : List Entry) (slack : List UInt8) : Prop where
  length : image.length = 8 + (entries.flatMap Entry.bytes).length + slack.length
  size : LittleEndian.slice image 2 2 = image.length
  number : LittleEndian.slice image 4 2 = entries.length
  entries : image.drop 8 = entries.flatMap Entry.bytes ++ slack

theorem layout_fields (revision padding : UInt8) {reserved : List UInt8} {entries : List Entry}
    {slack : List UInt8} (hreserved : reserved.length = 2) (hcount : entries.length ≤ maxAces)
    (hsmall : (layout revision padding reserved entries slack).length < maxAclBytes) :
    Fields (layout revision padding reserved entries slack) entries slack := by
  have hlength : (layout revision padding reserved entries slack).length =
      8 + (entries.flatMap Entry.bytes).length + slack.length := by
    simp only [layout, List.length_append, List.length_cons, List.length_nil,
      LittleEndian.length_encode, hreserved]
  have hmax : maxAclBytes = 256 ^ 2 := rfl
  refine ⟨hlength, ?_, ?_, ?_⟩
  · have hslice := LittleEndian.slice_encode [revision, padding]
      (LittleEndian.encode 2 entries.length ++
        (reserved ++ (entries.flatMap Entry.bytes ++ slack))) 2
      (8 + (entries.flatMap Entry.bytes).length + slack.length) (by omega)
    rw [hlength, ← hslice, layout]
    simp only [List.append_assoc, List.length_cons, List.length_nil]
  · have hslice := LittleEndian.slice_encode ([revision, padding] ++
        LittleEndian.encode 2 (8 + (entries.flatMap Entry.bytes).length + slack.length))
      (reserved ++ (entries.flatMap Entry.bytes ++ slack)) 2 entries.length
      (by unfold maxAces at hcount; omega)
    rw [← hslice, layout]
    simp only [List.append_assoc, List.length_append, LittleEndian.length_encode, List.length_cons,
      List.length_nil]
  · rw [layout, List.append_assoc]
    apply List.drop_left'
    simp only [List.length_append, LittleEndian.length_encode, hreserved, List.length_cons,
      List.length_nil]

/-- The entries of a list in memory are read, whatever its header reserves and its size
leaves over. -/
theorem readAcl_layout (memory : ByteMap) (address : UInt64) (revision padding : UInt8)
    {reserved : List UInt8} {entries : List Entry} {slack : List UInt8}
    (hreserved : reserved.length = 2) (hcount : entries.length ≤ maxAces)
    (hsmall : (layout revision padding reserved entries slack).length < maxAclBytes)
    (hread : memory.read address (layout revision padding reserved entries slack).length =
      some (layout revision padding reserved entries slack)) :
    ∃ aces, readAcl memory.read address = .ok ⟨revision, entries.length, aces⟩ ∧
      List.Forall₂ Decodes entries aces := by
  have hfields := layout_fields revision padding hreserved hcount hsmall
  have hrevision : ((layout revision padding reserved entries slack).take 8).getD 0 0 = revision :=
    rfl
  generalize layout revision padding reserved entries slack = image at *
  have hlength := hfields.length
  have hheader : memory.read address 8 = some (image.take 8) := by
    have hinside := ByteMap.read_inside hread (show 0 + 8 ≤ image.length by omega)
    rwa [List.drop_zero, show UInt64.ofNat 0 = 0 from rfl, UInt64.add_zero] at hinside
  have height : (image.take 8).length = 8 := by
    rw [List.length_take]
    omega
  have hfront (front : Nat) (hfront : front + 2 ≤ 8) :
      LittleEndian.slice (image.take 8) front 2 = LittleEndian.slice image front 2 := by
    have hmore := LittleEndian.slice_append (image.take 8) (image.drop 8) front 2 (by omega)
    rw [List.take_append_drop] at hmore
    exact hmore.symm
  have hsize : listSize memory.read address = image.length := by
    rw [listSize, hheader, ← hfields.size]
    exact hfront 2 (by decide)
  have hnumber := (hfront 4 (by decide)).trans hfields.number
  have hmax : maxAclBytes = 256 ^ 2 := rfl
  obtain ⟨aces, haces, hdecodes⟩ := readAces_layout entries hfields.entries
    (show _ ≤ image.length by omega) (by omega)
  refine ⟨aces, readAcl_eq_ok.mpr ⟨image.take 8, image, hheader, height.ge, ?_⟩, hdecodes⟩
  rw [hsize, hnumber]
  exact ⟨by omega, by omega, hcount, hread, Nat.le_refl _, hrevision.symm, rfl, haces⟩

/-- What a list that was read looks like: the bytes between its header and its size are
the entries returned, and less than the header of one where it says that there are more. -/
theorem readAcl_sound {read : Reader} {address : UInt64} {acl : Acl}
    (h : readAcl read address = .ok acl) :
    ∃ bytes entries slack, read address (listSize read address) = some bytes ∧
      (bytes.take (listSize read address)).drop 8 = entries.flatMap Entry.bytes ++ slack ∧
        List.Forall₂ Decodes entries acl.aces ∧ entries.length ≤ acl.aceCount ∧
          (entries.length < acl.aceCount → slack.length < 4) := by
  obtain ⟨header, bytes, -, -, hmin, -, -, hbytes, hfull, -, -, haces⟩ := readAcl_eq_ok.mp h
  have hsmall : listSize read address < 256 ^ 2 := by
    apply Nat.lt_of_lt_of_le (LittleEndian.decode_lt _)
    exact Nat.pow_le_pow_right (by decide) (List.length_take_le 2 _)
  obtain ⟨entries, slack, hrest⟩ := readAces_sound haces hmin hfull hsmall
  exact ⟨bytes, entries, slack, hbytes, hrest⟩

end WindbgMcp.SecurityDescriptor
