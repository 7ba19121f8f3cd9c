import Mathlib.Algebra.Order.Ring.Int
import Mathlib.Data.List.Basic
import WindbgMcp.Library.ByteMap
import WindbgMcp.Library.Text

/-! Reading one node of a memory walk: the fields are fetched in one read of the
span they cover where that span is narrow, and one by one otherwise.  Offsets are
machine integers; their arithmetic is on `Int` with the source's saturation. -/
namespace WindbgMcp.Walk

open Library

/-- Why a walk is cut short from outside. -/
inductive Halt where
  | deadline
  | interrupted
deriving DecidableEq, Repr

def maxSpan : Int := 4096

def i64Max : Int := 2 ^ 63 - 1
def i64Min : Int := -2 ^ 63

def saturatingAdd (value other : Int) : Int := max i64Min (min i64Max (value + other))
def saturatingSub (value other : Int) : Int := max i64Min (min i64Max (value - other))

def wrappingAddSigned (address : UInt64) (offset : Int) : UInt64 := address + UInt64.ofInt offset

def addr (value : UInt64) : String := "0x" ++ Text.hexPadded 16 value.toNat

structure Field where
  name : String
  offset : Int64
  size : Nat
deriving DecidableEq, Repr

structure WalkFieldValue where
  name : String
  address : String
  size : Nat
  value : Option String
deriving DecidableEq, Repr

structure WalkNode where
  index : Nat
  address : String
  next : Option String
  fields : List WalkFieldValue
  readable : Bool
deriving DecidableEq, Repr

def le (bytes : List UInt8) : UInt64 :=
  bytes.zipIdx.foldl
    (fun value (byte, i) => value ||| (byte.toUInt64 <<< UInt64.ofNat (8 * i))) 0

/-- The bytes of `from..from + size`, if there are as many. -/
def slice (bytes : List UInt8) («from» size : Nat) : Option (List UInt8) :=
  if «from» + size ≤ bytes.length then some ((bytes.drop «from»).take size) else none

def spans (fields : List Field) (link : Option Int64) : List (Int × Nat) :=
  fields.map (fun field => (field.offset.toInt, field.size)) ++
    link.toList.map fun offset => (offset.toInt, 8)

section
variable (read : UInt64 → Nat → Option (List UInt8))

def buffer («at» : UInt64) (reads : List (Int × Nat)) : Option (Int × List UInt8) :=
  let lo := (reads.map fun (offset, _) => offset).min?
  let hi := (reads.map fun (offset, size) => saturatingAdd offset size).max?
  -- a single value is its own span
  let coalesce := decide (reads.length > 1)
  match lo, hi with
  | some lo, some hi =>
    if coalesce && saturatingSub hi lo ≤ maxSpan then
      (read (wrappingAddSigned «at» lo) (hi - lo).toNat).map fun bytes => (lo, bytes)
    else none
  | _, _ => none

def value («at» : UInt64) (buffer : Option (Int × List UInt8)) (offset : Int) (size : Nat) :
    Option UInt64 :=
  match buffer with
  | some (lo, bytes) => (slice bytes (offset - lo).natAbs size).map le
  | none => (read (wrappingAddSigned «at» offset) size).map le

def readNode («at» : UInt64) (index : Nat) (fields : List Field) (link : Option Int64) :
    WalkNode :=
  let buffer := buffer read «at» (spans fields link)
  let values := fields.map fun field =>
    { name := field.name
      address := addr (wrappingAddSigned «at» field.offset.toInt)
      size := field.size
      value := (value read «at» buffer field.offset.toInt field.size).map addr :
      WalkFieldValue }
  let next := (link.bind fun offset => value read «at» buffer offset.toInt 8).map addr
  { index
    address := addr «at»
    readable := values.any (·.value.isSome) || next.isSome
    next
    fields := values }

end

@[simp] theorem value_some (read : UInt64 → Nat → Option (List UInt8)) («at» : UInt64)
    (lo offset : Int) (bytes : List UInt8) (size : Nat) :
    value read «at» (some (lo, bytes)) offset size =
      (slice bytes (offset - lo).natAbs size).map le := rfl

theorem ofInt_natCast (value : Nat) : UInt64.ofInt (value : Int) = UInt64.ofNat value := by
  have hmod : ((value : Int) % 2 ^ 64).toNat = value % 2 ^ 64 := by omega
  unfold UInt64.ofInt
  rw [hmod]
  exact UInt64.ofNat_mod_size

def alone (read : UInt64 → Nat → Option (List UInt8)) («at» : UInt64) (offset : Int)
    (size : Nat) : Option UInt64 :=
  (read (wrappingAddSigned «at» offset) size).map le

theorem offset_le_of_mem {fields : List Field} {link : Option Int64} {offset : Int} {size : Nat}
    (h : (offset, size) ∈ spans fields link) : i64Min ≤ offset ∧ offset ≤ i64Max := by
  have hrange (offset : Int64) : i64Min ≤ offset.toInt ∧ offset.toInt ≤ i64Max :=
    ⟨offset.le_toInt, offset.toInt_le⟩
  cases List.mem_append.mp h with
  | inl hmem =>
    obtain ⟨field, _, hfield⟩ := List.mem_map.mp hmem
    rw [← (Prod.mk.inj hfield).1]
    exact hrange field.offset
  | inr hmem =>
    obtain ⟨offset', _, hoffset⟩ := List.mem_map.mp hmem
    rw [← (Prod.mk.inj hoffset).1]
    exact hrange offset'

theorem saturatingAdd_le (value other : Int) : saturatingAdd value other ≤ i64Max := by
  simp only [saturatingAdd, i64Max, i64Min]
  omega

theorem saturatingAdd_of_le {offset : Int} {size : Nat} (hoffset : i64Min ≤ offset)
    (h : offset + size ≤ i64Max) : saturatingAdd offset size = offset + size := by
  simp only [saturatingAdd, i64Max, i64Min] at *
  omega

theorem saturatingAdd_of_lt {offset : Int} {size : Nat} (h : i64Max < offset + size) :
    saturatingAdd offset size = i64Max := by
  simp only [saturatingAdd, i64Max, i64Min] at *
  omega

/-- The span a node was fetched by: its offsets begin at `lo`, none of its values ends
above `hi` unless the end is past the last offset, and it read as `bytes`. -/
structure Spanned (read : UInt64 → Nat → Option (List UInt8)) («at» : UInt64)
    (reads : List (Int × Nat)) (lo hi : Int) (bytes : List UInt8) : Prop where
  several : 1 < reads.length
  lowest : (reads.map Prod.fst).min? = some lo
  highest : (reads.map fun (offset, size) => saturatingAdd offset size).max? = some hi
  narrow : hi - lo ≤ maxSpan
  bytes : read (wrappingAddSigned «at» lo) (hi - lo).toNat = some bytes

section
variable {read : UInt64 → Nat → Option (List UInt8)} {«at» : UInt64} {reads : List (Int × Nat)}
  {lo hi offset : Int} {size : Nat} {bytes : List UInt8}

theorem saturatingSub_le_maxSpan_iff :
    saturatingSub hi lo ≤ maxSpan ↔ hi - lo ≤ maxSpan := by
  simp only [saturatingSub, i64Max, i64Min, maxSpan]
  omega

theorem buffer_eq_some_iff :
    buffer read «at» reads = some (lo, bytes) ↔ ∃ hi, Spanned read «at» reads lo hi bytes := by
  unfold buffer
  simp only
  constructor
  · intro h
    split at h
    · rename_i lo' hi' hlowest hhighest
      split at h
      · rename_i hcoalesce
        simp only [Bool.and_eq_true, decide_eq_true_eq] at hcoalesce
        obtain ⟨bytes', hread, heq⟩ := Option.map_eq_some_iff.mp h
        obtain ⟨rfl, rfl⟩ := Prod.mk.inj heq
        exact ⟨hi', hcoalesce.1, hlowest, hhighest,
          saturatingSub_le_maxSpan_iff.mp hcoalesce.2, hread⟩
      · cases h
    · cases h
  · intro ⟨hi, h⟩
    have hlowest : (reads.map fun (offset, _) => offset).min? = some lo := h.lowest
    rw [hlowest, h.highest]
    simp only [h.several, saturatingSub_le_maxSpan_iff.mpr h.narrow, decide_true, Bool.and_self,
      if_true, h.bytes, Option.map_some]

theorem Spanned.lo_le (h : Spanned read «at» reads lo hi bytes) (hmem : (offset, size) ∈ reads) :
    lo ≤ offset :=
  (List.min?_eq_some_iff.mp h.lowest).2 offset (List.mem_map.mpr ⟨(offset, size), hmem, rfl⟩)

theorem Spanned.le_hi (h : Spanned read «at» reads lo hi bytes) (hmem : (offset, size) ∈ reads) :
    saturatingAdd offset size ≤ hi :=
  (List.max?_eq_some_iff.mp h.highest).2 _ (List.mem_map.mpr ⟨(offset, size), hmem, rfl⟩)

theorem Spanned.hi_le (h : Spanned read «at» reads lo hi bytes) : hi ≤ i64Max := by
  obtain ⟨⟨offset, size⟩, _, heq⟩ := List.mem_map.mp (List.max?_eq_some_iff.mp h.highest).1
  rw [← heq]
  exact saturatingAdd_le offset size

end

section
variable {memory : ByteMap} {«at» : UInt64} {fields : List Field} {link : Option Int64}
  {lo hi offset : Int} {size : Nat} {bytes : List UInt8}

theorem value_of_inside (h : Spanned memory.read «at» (spans fields link) lo hi bytes)
    (hmem : (offset, size) ∈ spans fields link) (hinside : offset + size ≤ hi) :
    value memory.read «at» (some (lo, bytes)) offset size =
      alone memory.read «at» offset size := by
  have hlo := h.lo_le hmem
  have hwithin : (offset - lo).natAbs + size ≤ (hi - lo).toNat := by omega
  have hlength := ByteMap.length_read h.bytes
  have haddress : wrappingAddSigned «at» lo + UInt64.ofNat (offset - lo).natAbs =
      wrappingAddSigned «at» offset := by
    have hsum : offset = lo + ((offset - lo).natAbs : Int) := by omega
    unfold wrappingAddSigned
    rw [UInt64.add_assoc]
    congr 1
    conv_rhs => rw [hsum, UInt64.ofInt_add, ofInt_natCast]
  rw [value_some, slice, alone, hlength, if_pos hwithin, ← haddress, ByteMap.read_inside h.bytes hwithin]

/-- A value that ends above the span ends past the last offset, and is not served. -/
theorem value_of_past (h : Spanned memory.read «at» (spans fields link) lo hi bytes)
    (hmem : (offset, size) ∈ spans fields link) (hpast : hi < offset + size) :
    hi = i64Max ∧ i64Max < offset + size ∧
      value memory.read «at» (some (lo, bytes)) offset size = none := by
  have hlo := h.lo_le hmem
  have hle := h.le_hi hmem
  have hmax := h.hi_le
  have hover : i64Max < offset + size := by
    apply Int.lt_of_not_ge
    intro hfits
    rw [saturatingAdd_of_le (offset_le_of_mem hmem).1 hfits] at hle
    omega
  rw [saturatingAdd_of_lt hover] at hle
  have hlength := ByteMap.length_read h.bytes
  have hlomax := (offset_le_of_mem hmem).2
  refine ⟨by omega, hover, ?_⟩
  rw [value_some, slice, if_neg (by omega)]
  rfl

end

def ReadsAlone (memory : ByteMap) («at» : UInt64) (index : Nat) (fields : List Field)
    (link : Option Int64) : Prop :=
  (readNode memory.read «at» index fields link).fields = fields.map (fun field =>
    { name := field.name
      address := addr (wrappingAddSigned «at» field.offset.toInt)
      size := field.size
      value := (alone memory.read «at» field.offset.toInt field.size).map addr }) ∧
  (readNode memory.read «at» index fields link).next =
    (link.bind fun offset => alone memory.read «at» offset.toInt 8).map addr

/-- A readable value ends past the last offset, where the end of the span saturates,
and the span so cut is narrow enough and readable. -/
def Overreaches (memory : ByteMap) («at» : UInt64) (fields : List Field)
    (link : Option Int64) : Prop :=
  1 < (spans fields link).length ∧
  ∃ lo, ((spans fields link).map Prod.fst).min? = some lo ∧ i64Max - lo ≤ maxSpan ∧
    (memory.read (wrappingAddSigned «at» lo) (i64Max - lo).toNat).isSome = true ∧
    ∃ offset size, (offset, size) ∈ spans fields link ∧ i64Max < offset + (size : Int) ∧
      (memory.read (wrappingAddSigned «at» offset) size).isSome = true

section
variable {memory : ByteMap} {«at» : UInt64} {index : Nat} {fields : List Field}
  {link : Option Int64} {offset : Int} {size : Nat}

theorem readsAlone_of_values
    (h : ∀ offset size, (offset, size) ∈ spans fields link →
      value memory.read «at» (buffer memory.read «at» (spans fields link)) offset size =
        alone memory.read «at» offset size) :
    ReadsAlone memory «at» index fields link := by
  unfold ReadsAlone readNode
  simp only
  constructor
  · apply List.map_congr_left
    intro field hfield
    rw [h field.offset.toInt field.size
      (List.mem_append_left _ (List.mem_map.mpr ⟨field, hfield, rfl⟩))]
  · cases link with
    | none => rfl
    | some offset =>
      simp only [Option.bind_some]
      rw [h offset.toInt 8 (List.mem_append_right _ List.mem_cons_self)]

theorem ReadsAlone.value (h : ReadsAlone memory «at» index fields link)
    (hmem : (offset, size) ∈ spans fields link) :
    (Walk.value memory.read «at» (buffer memory.read «at» (spans fields link)) offset size).map
      addr = (alone memory.read «at» offset size).map addr := by
  obtain ⟨hfields, hnext⟩ := h
  unfold readNode at hfields hnext
  simp only at hfields hnext
  cases List.mem_append.mp hmem with
  | inl hmem =>
    obtain ⟨field, hfield, heq⟩ := List.mem_map.mp hmem
    obtain ⟨rfl, rfl⟩ := Prod.mk.inj heq
    have hrow := List.map_inj_left.mp hfields field hfield
    exact congrArg WalkFieldValue.value hrow
  | inr hmem =>
    obtain ⟨offset', hlink, heq⟩ := List.mem_map.mp hmem
    obtain ⟨rfl, rfl⟩ := Prod.mk.inj heq
    rw [Option.mem_toList] at hlink
    rw [hlink] at hnext ⊢
    exact hnext

/-- Without an overreaching value, both routes serve every value as read alone. -/
theorem value_eq_alone (h : ¬Overreaches memory «at» fields link)
    (hmem : (offset, size) ∈ spans fields link) :
    value memory.read «at» (buffer memory.read «at» (spans fields link)) offset size =
      alone memory.read «at» offset size := by
  cases hbuffer : buffer memory.read «at» (spans fields link) with
  | none => rfl
  | some fetched =>
    obtain ⟨lo, bytes⟩ := fetched
    obtain ⟨hi, hspanned⟩ := buffer_eq_some_iff.mp hbuffer
    by_cases hinside : offset + size ≤ hi
    · exact value_of_inside hspanned hmem hinside
    · obtain ⟨hhi, hover, hnone⟩ := value_of_past hspanned hmem (Int.lt_of_not_ge hinside)
      rw [hnone]
      cases halone : memory.read (wrappingAddSigned «at» offset) size with
      | none =>
        unfold alone
        rw [halone]
        rfl
      | some there =>
        apply absurd _ h
        have hnarrow := hspanned.narrow
        have hbytes := hspanned.bytes
        rw [hhi] at hnarrow hbytes
        refine ⟨hspanned.several, lo, hspanned.lowest, hnarrow, ?_, offset, size, hmem, hover, ?_⟩
        · rw [hbytes]
          rfl
        · rw [halone]
          rfl

theorem Overreaches.spanned (h : Overreaches memory «at» fields link) :
    ∃ lo bytes offset size, Spanned memory.read «at» (spans fields link) lo i64Max bytes ∧
      (offset, size) ∈ spans fields link ∧ i64Max < offset + (size : Int) ∧
      (memory.read (wrappingAddSigned «at» offset) size).isSome = true := by
  obtain ⟨hseveral, lo, hlowest, hnarrow, hbytes, offset, size, hmem, hover, halone⟩ := h
  obtain ⟨bytes, hread⟩ := Option.isSome_iff_exists.mp hbytes
  refine ⟨lo, bytes, offset, size, ⟨hseveral, hlowest, ?_, hnarrow, hread⟩, hmem, hover, halone⟩
  rw [List.max?_eq_some_iff]
  constructor
  · exact List.mem_map.mpr ⟨(offset, size), hmem, saturatingAdd_of_lt hover⟩
  · intro past hpast
    obtain ⟨⟨offset', size'⟩, _, heq⟩ := List.mem_map.mp hpast
    rw [← heq]
    exact saturatingAdd_le offset' size'

/-- Coalescing is invisible except where the end of the span saturates below a value
that would have been readable. -/
theorem readNode_readsAlone_iff (memory : ByteMap) («at» : UInt64) (index : Nat)
    (fields : List Field) (link : Option Int64) :
    ReadsAlone memory «at» index fields link ↔ ¬Overreaches memory «at» fields link := by
  constructor
  · intro hrow hover
    obtain ⟨lo, bytes, offset, size, hspanned, hmem, hpast, halone⟩ := hover.spanned
    obtain ⟨there, hthere⟩ := Option.isSome_iff_exists.mp halone
    have hvalue := hrow.value hmem
    rw [buffer_eq_some_iff.mpr ⟨i64Max, hspanned⟩, (value_of_past hspanned hmem hpast).2.2,
      alone, hthere] at hvalue
    cases hvalue
  · intro h
    apply readsAlone_of_values
    intro offset size hmem
    exact value_eq_alone h hmem

end

/-- Two fields at the end of the offset range, over memory where every byte is mapped:
the span stops one byte into the second field, whose value is then missing. -/
theorem saturated_span_loses_field :
    let memory : ByteMap := ⟨fun _ => some 0x41, true⟩
    let fields : List Field :=
      [⟨"a", Int64.maxValue - 7, 1⟩, ⟨"b", Int64.maxValue - 3, 8⟩]
    ((readNode memory.read 0x8000000000020000 0 fields none).fields.map (·.value) =
        [some "0x0000000000000041", none] ∧
      (alone memory.read 0x8000000000020000 (Int64.maxValue - 3).toInt 8).map addr =
        some "0x4141414141414141") ∧
    ¬ReadsAlone memory 0x8000000000020000 0 fields none := by
  intro memory fields
  have hrow : (readNode memory.read 0x8000000000020000 0 fields none).fields.map (·.value) =
      [some "0x0000000000000041", none] := by decide
  have halone : (alone memory.read 0x8000000000020000 (Int64.maxValue - 3).toInt 8).map addr =
      some "0x4141414141414141" := by decide
  refine ⟨⟨hrow, halone⟩, ?_⟩
  intro h
  rw [h.1] at hrow
  simp only [fields, List.map_cons, List.map_nil, List.cons.injEq] at hrow
  rw [halone] at hrow
  cases hrow.2.1

end WindbgMcp.Walk
