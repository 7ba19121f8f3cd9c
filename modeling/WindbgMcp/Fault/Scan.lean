import WindbgMcp.Library.Ascending
import WindbgMcp.Library.ByteMap
import WindbgMcp.Library.LittleEndian

/-! The search of a stack for the record of a C++ throw (`fault.rs`).  Addresses are
natural numbers below 2^64; a chunk read is halved until the target answers. -/
namespace WindbgMcp.Fault
open WindbgMcp.Library

inductive Bitness
  | bits32
  | bits64
  deriving DecidableEq, Repr

/-- One target's `EXCEPTION_RECORD`. -/
structure Layout where
  numberParameters : Nat
  firstParameter : Nat
  parameterWidth : Nat
  size : Nat

def maxParameters : Nat := 15

def statusCppEhException : Nat := 0xe06d7363

def cppEhMagic : Nat := 0x19930520

def maxRecords : Nat := 8

def scanChunk : Nat := 4096

def Bitness.cppThrowParameters : Bitness → Nat
  | .bits32 => 3
  | .bits64 => 4

def Bitness.record : Bitness → Layout
  | .bits32 => ⟨16, 20, 4, 20 + maxParameters * 4⟩
  | .bits64 => ⟨24, 32, 8, 32 + maxParameters * 8⟩

structure CppThrow where
  object : Nat
  throwInfo : Nat
  imageBase : Nat
  bitness : Bitness
  deriving DecidableEq, Repr

/-- `bytes.get(at..at + width)`, read as a little-endian integer. -/
def field (bytes : List UInt8) («at» width : Nat) : Option Nat :=
  if «at» + width ≤ bytes.length then some (LittleEndian.slice bytes «at» width) else none

/-- `Read`: the debug engine refuses a range that is not wholly mapped. -/
def readAt (memory : ByteMap) (address count : Nat) : Option (List UInt8) :=
  memory.read (UInt64.ofNat address) count

def recordAt (memory : ByteMap) (address : Nat) (bitness : Bitness) : Option CppThrow := do
  let layout := bitness.record
  let bytes ← readAt memory address layout.size
  let code ← field bytes 0 4
  guard (code = statusCppEhException)
  let count ← field bytes layout.numberParameters 4
  guard (bitness.cppThrowParameters ≤ count ∧ count ≤ maxParameters)
  let parameter := fun index =>
    field bytes (layout.firstParameter + index * layout.parameterWidth) layout.parameterWidth
  let magic ← parameter 0
  guard (magic = cppEhMagic)
  let object ← parameter 1
  let throwInfo ← parameter 2
  let imageBase ← if 3 < count then parameter 3 else some 0
  some { object, throwInfo, imageBase, bitness }

/-- `read_upto`: the length is halved until the target answers. -/
def readUpto (memory : ByteMap) (address want : Nat) : Option (List UInt8) :=
  if want = 0 then none
  else
    match readAt memory address want with
    | some bytes => some bytes
    | none => readUpto memory address (want / 2)
termination_by want

def saturatingAdd (value other : Nat) : Nat := min (value + other) (2 ^ 64 - 1)

/-- `STATUS_CPP_EH_EXCEPTION.to_le_bytes()`. -/
def needle : List UInt8 := LittleEndian.encode 4 statusCppEhException

/-- `(0..bound).step_by(4)`. -/
def stepByFour (bound : Nat) : List Nat := (List.range ((bound + 3) / 4)).map (4 * ·)

section
variable (memory : ByteMap) (bitness : Bitness)

def collect (address : Nat) (chunk : List UInt8) : List Nat → List Nat → List Nat
  | [], found => found
  | offset :: offsets, found =>
    if (chunk.drop offset).take 4 = needle ∧
        (recordAt memory (address + offset) bitness).isSome then
      if maxRecords ≤ (found ++ [address + offset]).length then found ++ [address + offset]
      else collect address chunk offsets (found ++ [address + offset])
    else collect address chunk offsets found

theorem saturatingAdd_nearer {high : UInt64} {address count : Nat}
    (hlow : address < high.toNat) (hcount : 0 < count) :
    high.toNat - saturatingAdd address count < high.toNat - address := by
  have hhigh := high.toNat_lt
  unfold saturatingAdd
  omega

def scanFrom (stackHigh : UInt64) (address : Nat) (found : List Nat) : List Nat :=
  if hmore : address < stackHigh.toNat ∧ found.length < maxRecords then
    match readUpto memory address (min scanChunk (stackHigh.toNat - address)) with
    | none => scanFrom stackHigh (saturatingAdd address scanChunk) found
    | some chunk =>
      if hchunk : chunk = [] then found
      else
        scanFrom stackHigh (saturatingAdd address chunk.length)
          (collect memory bitness address chunk (stepByFour (chunk.length - 3)) found)
  else found
termination_by stackHigh.toNat - address
decreasing_by
  · exact saturatingAdd_nearer hmore.1 (by decide)
  · exact saturatingAdd_nearer hmore.1 (List.length_pos_of_ne_nil hchunk)

def findCppRecords (stackLow stackHigh : UInt64) : List Nat :=
  scanFrom memory bitness stackHigh stackLow.toNat []

def isRecord (address : Nat) : Bool := (recordAt memory address bitness).isSome

/-- The records on the grid of the range: at the multiples of four from its low end,
with their first four bytes inside it, in ascending order. -/
def records (stackLow stackHigh : UInt64) : List Nat :=
  ((List.range ((stackHigh.toNat - stackLow.toNat) / 4)).map
    fun index => stackLow.toNat + 4 * index).filter (isRecord memory bitness)

end

section
variable {memory : ByteMap} {bitness : Bitness}

theorem mem_records {stackLow stackHigh : UInt64} {address : Nat} :
    address ∈ records memory bitness stackLow stackHigh ↔
      stackLow.toNat ≤ address ∧ 4 ∣ address - stackLow.toNat ∧
        address + 4 ≤ stackHigh.toNat ∧ (recordAt memory address bitness).isSome := by
  unfold records isRecord
  simp only [List.mem_filter, List.mem_map, List.mem_range]
  constructor
  · intro ⟨⟨index, hindex, haddress⟩, hrecord⟩
    refine ⟨by omega, ⟨index, by omega⟩, by omega, hrecord⟩
  · intro ⟨hlow, ⟨index, hindex⟩, hhigh, hrecord⟩
    exact ⟨⟨index, by omega, by omega⟩, hrecord⟩

theorem readUpto_spec {address want : Nat} {chunk : List UInt8}
    (h : readUpto memory address want = some chunk) :
    0 < chunk.length ∧ chunk.length ≤ want ∧
      readAt memory address chunk.length = some chunk := by
  induction want using Nat.strong_induction_on with
  | _ want ih =>
    rw [readUpto] at h
    split at h
    · cases h
    · rename_i hwant
      split at h
      · rename_i bytes hread
        cases h
        have hlength : chunk.length = want := ByteMap.length_read hread
        rw [hlength]
        exact ⟨by omega, le_refl want, hread⟩
      · obtain ⟨hpos, hle, hread⟩ := ih (want / 2) (by omega) h
        exact ⟨hpos, by omega, hread⟩

theorem needle_of_recordAt {address offset count : Nat} {chunk : List UInt8}
    (hread : readAt memory address count = some chunk) (hin : offset + 4 ≤ count)
    (h : (recordAt memory (address + offset) bitness).isSome) :
    (chunk.drop offset).take 4 = needle := by
  obtain ⟨throw, hthrow⟩ := Option.isSome_iff_exists.mp h
  unfold recordAt at hthrow
  simp only [Option.bind_eq_bind, Option.bind_eq_some_iff] at hthrow
  obtain ⟨bytes, hbytes, code, hcode, _, hstatus, -⟩ := hthrow
  have hchunk := ByteMap.read_inside hread hin
  have hsize : 0 + 4 ≤ bitness.record.size := by
    cases bitness <;> decide
  have hfront := ByteMap.read_inside hbytes hsize
  have hzero : UInt64.ofNat 0 = 0 := rfl
  rw [UInt64.ofNat_add, hzero, UInt64.add_zero, hchunk, List.drop_zero,
    Option.some.injEq] at hfront
  have hlength : (bytes.take 4).length = 4 := by
    have hall := ByteMap.length_read hbytes
    rw [List.length_take, hall]
    omega
  have hcodes : code = LittleEndian.decode (bytes.take 4) := by
    unfold field at hcode
    split at hcode
    · cases hcode
      rfl
    · cases hcode
  have heq : code = statusCppEhException := by
    by_contra hne
    simp [guard, hne] at hstatus
  have hencode := LittleEndian.encode_decode (bytes.take 4)
  rw [hlength, ← hcodes, heq] at hencode
  rw [hfront, ← hencode]
  rfl

theorem collect_eq {address count : Nat} {chunk : List UInt8}
    (hread : readAt memory address count = some chunk) {offsets found : List Nat}
    (hoffsets : ∀ offset ∈ offsets, offset + 4 ≤ count) (hfound : found.length < maxRecords) :
    collect memory bitness address chunk offsets found =
      (found ++ (offsets.map (address + ·)).filter (isRecord memory bitness)).take
        maxRecords := by
  induction offsets generalizing found with
  | nil =>
    rw [collect, List.map_nil, List.filter_nil, List.append_nil,
      List.take_of_length_le (le_of_lt hfound)]
  | cons offset offsets ih =>
    have hrest : ∀ later ∈ offsets, later + 4 ≤ count :=
      fun later hlater => hoffsets later (List.mem_cons_of_mem offset hlater)
    rw [collect, List.map_cons]
    by_cases hrecord : (recordAt memory (address + offset) bitness).isSome
    · have hneedle := needle_of_recordAt hread (hoffsets offset List.mem_cons_self) hrecord
      rw [if_pos ⟨hneedle, hrecord⟩, List.filter_cons_of_pos (by exact hrecord),
        List.append_cons found (address + offset) (List.filter _ _)]
      split
      · rename_i hfull
        have hlength : (found ++ [address + offset]).length = maxRecords := by
          rw [List.length_append, List.length_singleton] at hfull ⊢
          omega
        rw [← hlength, List.take_left]
      · rename_i hroom
        exact ih hrest (by omega)
    · rw [if_neg (fun h => hrecord h.2), List.filter_cons_of_neg (by exact hrecord)]
      exact ih hrest hfound

variable (memory) in
/-- The chunks that the walk from an address on reads: where each begins and how long it
is. -/
def chunks (stackHigh : UInt64) (address : Nat) : List (Nat × Nat) :=
  if hmore : address < stackHigh.toNat then
    match hread : readUpto memory address (min scanChunk (stackHigh.toNat - address)) with
    | none => chunks stackHigh (saturatingAdd address scanChunk)
    | some chunk =>
      (address, chunk.length) :: chunks stackHigh (saturatingAdd address chunk.length)
  else []
termination_by stackHigh.toNat - address
decreasing_by
  · exact saturatingAdd_nearer hmore (by decide)
  · exact saturatingAdd_nearer hmore (readUpto_spec hread).1

def compared (chunk : Nat × Nat) : List Nat :=
  (stepByFour (chunk.2 - 3)).map (chunk.1 + ·)

theorem mem_compared {chunk : Nat × Nat} {address : Nat} :
    address ∈ compared chunk ↔
      ∃ index, 4 * index + 4 ≤ chunk.2 ∧ address = chunk.1 + 4 * index := by
  unfold compared stepByFour
  simp only [List.map_map, List.mem_map, List.mem_range, Function.comp_apply]
  constructor
  · intro ⟨index, hindex, haddress⟩
    exact ⟨index, by omega, haddress.symm⟩
  · intro ⟨index, hindex, haddress⟩
    exact ⟨index, by omega, haddress.symm⟩

variable (memory) in
def walked (stackHigh : UInt64) (address : Nat) : List Nat :=
  (chunks memory stackHigh address).flatMap compared

theorem walked_of_end {stackHigh : UInt64} {address : Nat} (h : ¬address < stackHigh.toNat) :
    walked memory stackHigh address = [] := by
  unfold walked
  rw [chunks, dif_neg h, List.flatMap_nil]

theorem walked_of_none {stackHigh : UInt64} {address : Nat} (h : address < stackHigh.toNat)
    (hread : readUpto memory address (min scanChunk (stackHigh.toNat - address)) = none) :
    walked memory stackHigh address =
      walked memory stackHigh (saturatingAdd address scanChunk) := by
  unfold walked
  rw [chunks, dif_pos h]
  split
  · rfl
  · simp_all

theorem walked_of_some {stackHigh : UInt64} {address : Nat} {chunk : List UInt8}
    (h : address < stackHigh.toNat)
    (hread : readUpto memory address (min scanChunk (stackHigh.toNat - address)) =
      some chunk) :
    walked memory stackHigh address =
      compared (address, chunk.length) ++
        walked memory stackHigh (saturatingAdd address chunk.length) := by
  unfold walked
  rw [chunks, dif_pos h]
  split
  · simp_all
  · rename_i bytes hbytes
    rw [hread, Option.some.injEq] at hbytes
    rw [hbytes, List.flatMap_cons]

theorem saturatingAdd_chunk {stackHigh : UInt64} {address : Nat} {chunk : List UInt8}
    (hread : readUpto memory address (min scanChunk (stackHigh.toNat - address)) =
      some chunk) :
    saturatingAdd address chunk.length = address + chunk.length ∧
      address + chunk.length ≤ stackHigh.toNat := by
  have hspec := readUpto_spec hread
  have hhigh := stackHigh.toNat_lt
  unfold saturatingAdd
  omega

theorem scanFrom_eq (stackHigh : UInt64) (address : Nat) (found : List Nat)
    (hfound : found.length ≤ maxRecords) :
    scanFrom memory bitness stackHigh address found =
      (found ++ (walked memory stackHigh address).filter (isRecord memory bitness)).take
        maxRecords := by
  fun_induction scanFrom memory bitness stackHigh address found with
  | case1 address found hmore hread ih => rw [ih hfound, walked_of_none hmore.1 hread]
  | case2 address found hmore hread =>
    have hspec := readUpto_spec hread
    exact absurd hspec.1 (by simp)
  | case3 address found hmore chunk hread hchunk ih =>
    obtain ⟨hpos, -, hbytes⟩ := readUpto_spec hread
    have hoffsets : ∀ offset ∈ stepByFour (chunk.length - 3), offset + 4 ≤ chunk.length := by
      intro offset hoffset
      unfold stepByFour at hoffset
      simp only [List.mem_map, List.mem_range] at hoffset
      obtain ⟨index, hindex, hoffset⟩ := hoffset
      omega
    have hcollect :=
      @collect_eq memory bitness address chunk.length chunk hbytes _ found hoffsets hmore.2
    have hlength : (collect memory bitness address chunk (stepByFour (chunk.length - 3))
        found).length ≤ maxRecords := by
      rw [hcollect, List.length_take]
      exact Nat.min_le_left _ _
    rw [ih hlength, walked_of_some hmore.1 hread, List.filter_append, ← List.append_assoc,
      hcollect]
    exact Ascending.take_take_append _ _ _
  | case4 address found hmore =>
    by_cases haddress : address < stackHigh.toNat
    · have hfull : found.length = maxRecords := by
        have hnot : ¬found.length < maxRecords := fun h => hmore ⟨haddress, h⟩
        omega
      rw [← hfull, List.take_left]
    · rw [walked_of_end haddress, List.filter_nil, List.append_nil,
        List.take_of_length_le hfound]

theorem walked_ascending (stackHigh : UInt64) (address : Nat) :
    (walked memory stackHigh address).Pairwise (· < ·) ∧
      ∀ later ∈ walked memory stackHigh address, address ≤ later := by
  fun_induction chunks memory stackHigh address with
  | case1 address hmore hread ih =>
    have hnext : address ≤ saturatingAdd address scanChunk := by
      have hhigh := stackHigh.toNat_lt
      unfold saturatingAdd
      omega
    rw [walked_of_none hmore hread]
    exact ⟨ih.1, fun later hlater => hnext.trans (ih.2 later hlater)⟩
  | case2 address hmore chunk hread ih =>
    have hexact := (saturatingAdd_chunk hread).1
    rw [walked_of_some hmore hread]
    have hfront : ∀ first ∈ compared (address, chunk.length),
        address ≤ first ∧ first < address + chunk.length := by
      intro first hfirst
      obtain ⟨index, hin, rfl⟩ := mem_compared.mp hfirst
      dsimp only at hin ⊢
      omega
    constructor
    · rw [List.pairwise_append]
      refine ⟨?_, ih.1, ?_⟩
      · unfold compared stepByFour
        rw [List.map_map, List.pairwise_map]
        apply List.pairwise_lt_range.imp
        intro first later hlt
        simp only [Function.comp_apply]
        omega
      · intro first hfirst later hlater
        have hbehind := ih.2 later hlater
        have hinside := (hfront first hfirst).2
        omega
    · intro later hlater
      rcases List.mem_append.mp hlater with hfirst | hrest
      · exact (hfront later hfirst).1
      · have hbehind := ih.2 later hrest
        omega
  | case3 address hmore =>
    rw [walked_of_end hmore]
    exact ⟨List.Pairwise.nil, fun later hlater => absurd hlater List.not_mem_nil⟩

theorem records_ascending (memory : ByteMap) (bitness : Bitness) (stackLow stackHigh : UInt64) :
    (records memory bitness stackLow stackHigh).Pairwise (· < ·) := by
  apply List.Pairwise.filter
  rw [List.pairwise_map]
  apply List.pairwise_lt_range.imp
  intro first later hlt
  omega

variable (memory) in
/-- The walk from the low end reads a chunk that holds the address's four bytes at a
multiple of four from its first. -/
def Compared (stackLow stackHigh : UInt64) (address : Nat) : Prop :=
  ∃ chunk ∈ chunks memory stackHigh stackLow.toNat,
    ∃ index, 4 * index + 4 ≤ chunk.2 ∧ address = chunk.1 + 4 * index

theorem mem_walked {stackLow stackHigh : UInt64} {address : Nat} :
    address ∈ walked memory stackHigh stackLow.toNat ↔
      Compared memory stackLow stackHigh address := by
  unfold walked Compared
  simp only [List.mem_flatMap, mem_compared]

/-- The answer is the first records of the grid if and only if the walk compares each of
those, and what it finds off the grid stands behind as many as are reported. -/
theorem findCppRecords_eq_records_iff (memory : ByteMap) (bitness : Bitness)
    (stackLow stackHigh : UInt64) :
    findCppRecords memory bitness stackLow stackHigh =
        (records memory bitness stackLow stackHigh).take maxRecords ↔
      (∀ address ∈ records memory bitness stackLow stackHigh,
        Ascending.below (records memory bitness stackLow stackHigh) address < maxRecords →
          Compared memory stackLow stackHigh address) ∧
      ∀ address, Compared memory stackLow stackHigh address →
        (recordAt memory address bitness).isSome →
          address ∉ records memory bitness stackLow stackHigh →
            maxRecords ≤
              Ascending.below (records memory bitness stackLow stackHigh) address := by
  unfold findCppRecords
  rw [scanFrom_eq stackHigh stackLow.toNat [] (Nat.zero_le maxRecords), List.nil_append,
    Ascending.take_eq_take_iff (records_ascending memory bitness stackLow stackHigh)
      ((walked_ascending stackHigh stackLow.toNat).1.filter _)]
  simp only [List.mem_filter, mem_walked, isRecord]
  constructor
  · intro ⟨hseen, hoff⟩
    constructor
    · intro address haddress hfirst
      exact (hseen address haddress hfirst).1
    · intro address hcompared hrecord hout
      exact hoff address ⟨hcompared, hrecord⟩ hout
  · intro ⟨hseen, hoff⟩
    constructor
    · intro address haddress hfirst
      exact ⟨hseen address haddress hfirst, (mem_records.mp haddress).2.2.2⟩
    · intro address hfound hout
      exact hoff address hfound.1 hfound.2 hout

theorem readAt_isSome {stackHigh : UInt64} {address : Nat} (hmore : address < stackHigh.toNat)
    (h : ∀ later, address ≤ later → later < stackHigh.toNat →
      (memory.byteAt (UInt64.ofNat later)).isSome) :
    (readAt memory address (min scanChunk (stackHigh.toNat - address))).isSome := by
  have hhigh := stackHigh.toNat_lt
  have hsize : (UInt64.ofNat address).toNat = address := by
    rw [UInt64.toNat_ofNat', Nat.mod_eq_of_lt (by omega)]
  unfold readAt ByteMap.read
  rw [if_pos]
  · apply ByteMap.bytesFrom_isSome
    intro skipped hskipped
    rw [← UInt64.ofNat_add]
    exact h (address + skipped) (by omega) (by omega)
  · rw [hsize]
    right
    have hsize : UInt64.size = 2 ^ 64 := rfl
    omega

/-- Over a range without a hole the walk compares the grid, all of it and in order. -/
theorem walked_of_mapped {stackHigh : UInt64} {address : Nat}
    (h : ∀ later, address ≤ later → later < stackHigh.toNat →
      (memory.byteAt (UInt64.ofNat later)).isSome) :
    walked memory stackHigh address =
      (List.range ((stackHigh.toNat - address) / 4)).map (address + 4 * ·) := by
  induction hleft : stackHigh.toNat - address using Nat.strong_induction_on
    generalizing address with
  | _ left ih =>
    by_cases hmore : address < stackHigh.toNat
    · obtain ⟨chunk, hread, hlength⟩ : ∃ chunk,
          readUpto memory address (min scanChunk left) = some chunk ∧
            chunk.length = min scanChunk left := by
        obtain ⟨chunk, hchunk⟩ := Option.isSome_iff_exists.mp (readAt_isSome hmore h)
        rw [hleft] at hchunk
        refine ⟨chunk, ?_, ByteMap.length_read hchunk⟩
        rw [readUpto, hchunk, if_neg]
        unfold scanChunk
        omega
      rw [← hleft] at hread
      have hexact := saturatingAdd_chunk hread
      rw [walked_of_some hmore hread, hexact.1]
      have hfront : compared (address, chunk.length) =
          (List.range (chunk.length / 4)).map (address + 4 * ·) := by
        unfold compared stepByFour
        have hcount : (chunk.length - 3 + 3) / 4 = chunk.length / 4 := by omega
        rw [List.map_map, hcount]
        rfl
      rw [hfront, ih (left - chunk.length) (by unfold scanChunk at hlength; omega)
        (fun later hlater => h later (by omega)) (by omega)]
      -- Only the last chunk is not a whole number of steps, and nothing is left behind it.
      have hcount : left / 4 = chunk.length / 4 + (left - chunk.length) / 4 := by
        unfold scanChunk at hlength
        omega
      rw [hcount, List.range_add, List.map_append, List.map_map]
      congr 1
      apply List.map_congr_left
      intro index hindex
      rw [List.mem_range] at hindex
      simp only [Function.comp_apply]
      unfold scanChunk at hlength
      omega
    · have hnone : left / 4 = 0 := by omega
      rw [walked_of_end hmore, hnone, List.range_zero, List.map_nil]

theorem findCppRecords_of_mapped {stackLow stackHigh : UInt64}
    (h : ∀ address, stackLow.toNat ≤ address → address < stackHigh.toNat →
      (memory.byteAt (UInt64.ofNat address)).isSome) :
    findCppRecords memory bitness stackLow stackHigh =
      (records memory bitness stackLow stackHigh).take maxRecords := by
  unfold findCppRecords records
  rw [scanFrom_eq stackHigh stackLow.toNat [] (Nat.zero_le maxRecords), List.nil_append,
    walked_of_mapped h]

theorem readUpto_of_unmapped {address : Nat} (want : Nat)
    (h : memory.byteAt (UInt64.ofNat address) = none) : readUpto memory address want = none := by
  induction want using Nat.strong_induction_on with
  | _ want ih =>
    rw [readUpto]
    split
    · rfl
    · rename_i hwant
      have hread : readAt memory address want = none := by
        obtain ⟨count, rfl⟩ := Nat.exists_eq_succ_of_ne_zero hwant
        unfold readAt ByteMap.read
        split
        · simp [ByteMap.bytesFrom, h]
        · rfl
      rw [hread]
      exact ih (want / 2) (by omega)

end

def throwBytes : List UInt8 :=
  LittleEndian.encode 4 statusCppEhException ++ List.replicate 20 0 ++
    LittleEndian.encode 4 4 ++ List.replicate 4 0 ++ LittleEndian.encode 8 cppEhMagic ++
    LittleEndian.encode 8 0x2100 ++ LittleEndian.encode 8 0x7ff600003000 ++
    LittleEndian.encode 8 0x7ff600000000 ++ List.replicate 88 0

def laterPage : ByteMap where
  byteAt address :=
    if 0x2000 ≤ address.toNat then throwBytes[address.toNat - 0x2000]? else none
  wraps := false

/-- The walk starts in the middle of a page that is not there, and a whole chunk behind it
lies in the middle of the next page: the record at that page's head is stepped over. -/
theorem findCppRecords_laterPage :
    findCppRecords laterPage .bits64 0x1800 0x3000 ≠
      (records laterPage .bits64 0x1800 0x3000).take maxRecords := by
  have hrecord : 0x2000 ∈ records laterPage .bits64 0x1800 0x3000 := by
    apply mem_records.mpr
    exact ⟨by decide, by decide, by decide, by decide +kernel⟩
  have hwalked : walked laterPage 0x3000 0x1800 = [] := by
    have hlow := readUpto_of_unmapped (min scanChunk ((0x3000 : UInt64).toNat - 0x1800))
      (show laterPage.byteAt (UInt64.ofNat 0x1800) = none by decide +kernel)
    have hbehind := readUpto_of_unmapped (min scanChunk ((0x3000 : UInt64).toNat - 0x2800))
      (show laterPage.byteAt (UInt64.ofNat 0x2800) = none by decide +kernel)
    rw [walked_of_none (by decide) hlow]
    have hnext : saturatingAdd 0x1800 scanChunk = 0x2800 := by decide
    rw [hnext, walked_of_none (by decide) hbehind, walked_of_end (by decide)]
  have hfound : findCppRecords laterPage .bits64 0x1800 0x3000 = [] := by
    have hlow : (0x1800 : UInt64).toNat = 0x1800 := rfl
    unfold findCppRecords
    rw [scanFrom_eq _ _ [] (Nat.zero_le maxRecords), hlow, hwalked]
    rfl
  intro h
  rw [hfound, eq_comm, List.take_eq_nil_iff] at h
  rcases h with h | h
  · exact absurd h (by decide)
  · rw [h] at hrecord
    cases hrecord

end WindbgMcp.Fault
