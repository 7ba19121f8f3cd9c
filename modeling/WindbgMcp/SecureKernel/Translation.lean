import WindbgMcp.SecureKernel.Enumeration

/-! The address space a descent found, as a lookup, and virtual reads over it. -/
namespace WindbgMcp.SecureKernel
open Library

def dedupFrom (key : Leaf → Nat) (kept : Leaf) : List Leaf → List Leaf
  | [] => [kept]
  | leaf :: leaves =>
    if key kept = key leaf then dedupFrom key kept leaves
    else kept :: dedupFrom key leaf leaves

def dedupByKey (key : Leaf → Nat) : List Leaf → List Leaf
  | [] => []
  | leaf :: leaves => dedupFrom key leaf leaves

def checkedSub (first second : Nat) : Option Nat :=
  if second ≤ first then some (first - second) else none

structure AddressSpace where
  spans : List Leaf

namespace AddressSpace

def new (leaves : List Leaf) : AddressSpace where
  spans := dedupByKey Leaf.va (leaves.mergeSort fun first second =>
    first.va < second.va || first.va == second.va && first.size ≤ second.size)

/-- The index of the first leaf past the ones at or below `va`. -/
def partitionPoint (space : AddressSpace) (va : Nat) : Nat :=
  (space.spans.takeWhile fun leaf => leaf.va ≤ va).length

/-- The physical address `va` maps to, if this space maps it. -/
def translate (space : AddressSpace) (va : Nat) : Option Nat :=
  (checkedSub (space.partitionPoint va) 1).bind fun index =>
    space.spans[index]?.bind fun leaf =>
      (checkedSub va leaf.va).bind fun distance =>
        if distance < leaf.size then some (offset leaf.gpa distance) else none

end AddressSpace

inductive VaFailure
  | unmapped (va : Nat)
  | wraps (va length : Nat)
  | read (va gpa : Nat) (failure : ReadFailure)
  deriving DecidableEq, Repr

structure Space where
  reader : Source
  space : AddressSpace

namespace Space

def page (space : Space) (va : Nat) : Except VaFailure (List UInt8) :=
  let start := SecureKernel.page va
  match space.space.translate start with
  | none => .error (.unmapped start)
  | some gpa =>
    match space.reader.read gpa pageSize with
    | .ok bytes => .ok bytes
    | .error failure => .error (.read start gpa failure)

/-- The pages from `done` on. -/
def readPages (space : Space) (va done remaining : Nat) : Except VaFailure (List UInt8) :=
  if remaining = 0 then .ok []
  else
    let start := offset va done
    match space.page start with
    | .error failure => .error failure
    | .ok bytes =>
      let skip := offsetInPage start
      let take := min remaining (pageSize - skip)
      ((bytes.drop skip).take take ++ ·) <$> space.readPages va (done + take) (remaining - take)
termination_by remaining
decreasing_by
  have := Nat.mod_lt (offset va done) (by decide : 0 < pageSize)
  rw [← offsetInPage_eq] at this
  omega

/-- `length` bytes from `va`, stitched across page boundaries. -/
def readSpan (space : Space) (va length : Nat) : Except VaFailure (List UInt8) :=
  if length > 0 && va + (length - 1) ≥ 2 ^ 64 then .error (.wraps va length)
  else space.readPages va 0 length

end Space

/-! ### The leaves of a walk -/

def Leaf.span (leaf : Leaf) : Span := ⟨leaf.va, leaf.gpa, leaf.size⟩

theorem pageWalk_congr (memory : Nat → UInt8) {levels first second : Nat} (table : Nat)
    (h : first % reach levels = second % reach levels) :
    pageWalk memory levels table first = pageWalk memory levels table second := by
  induction levels generalizing table with
  | zero => rfl
  | succ below ih =>
    have hdigit : ∀ address, address / 2 ^ (12 + 9 * below) % 512 =
        address % reach (below + 1) / reach below := by
      intro address
      rw [reach_succ, Nat.mul_comm 512, Nat.mod_mul_right_div_self]
      rfl
    have hrest : first % reach below = second % reach below := by
      rw [← Nat.mod_mod_of_dvd first (reach_dvd below), h, Nat.mod_mod_of_dvd _ (reach_dvd below)]
    unfold pageWalk
    rw [hdigit, hdigit, h]
    cases follow (entryAt memory table (second % reach (below + 1) / reach below)) below with
    | fault => rfl
    | next next => exact ih next hrest
    | frame frame =>
      simp only [Option.some.injEq, Nat.add_left_cancel_iff]
      exact hrest

section
variable {leaf : Leaf}

theorem Leaf.Proper.va_eq (h : leaf.Proper) :
    leaf.va = if leaf.va % 2 ^ 48 < 2 ^ 47 then leaf.va % 2 ^ 48
      else leaf.va % 2 ^ 48 + 0xFFFF * 2 ^ 48 := by
  conv => lhs; rw [h.canonical]
  exact canonical_eq (Nat.mod_lt _ (by decide))

theorem Leaf.Proper.covers_iff (h : leaf.Proper) (hroom : leaf.va % 2 ^ 48 + leaf.size ≤ 2 ^ 48)
    (address : Nat) :
    leaf.span.Covers address ↔ IsCanonical address ∧ leaf.low.Covers (address % 2 ^ 48) := by
  have hva := h.va_eq
  have hhalf := h.half
  unfold Leaf.span Leaf.low Span.Covers IsCanonical
  simp only
  split at hva
  · omega
  · omega

theorem Leaf.Proper.below {other : Leaf} (h : leaf.Proper) (hother : other.Proper)
    (hbelow : leaf.low.Below other.low) : leaf.span.Below other.span := by
  have hva := h.va_eq
  have hva' := hother.va_eq
  unfold Leaf.span Leaf.low Span.Below at *
  simp only at hbelow ⊢
  split at hva <;> split at hva' <;> omega

end

structure Charts (memory : Nat → UInt8) (root : Nat) (leaves : List Leaf) : Prop where
  proper : ∀ leaf ∈ leaves, leaf.Proper
  maps : Span.Maps (pageWalk memory 4 (page root)) 0 (2 ^ 48) (leaves.map Leaf.low)

section
variable {memory : Nat → UInt8} {root : Nat} {leaves : List Leaf}

theorem Charts.room (h : Charts memory root leaves) {leaf : Leaf} (hleaf : leaf ∈ leaves) :
    leaf.va % 2 ^ 48 + leaf.size ≤ 2 ^ 48 :=
  (h.maps.within leaf.low (List.mem_map_of_mem hleaf)).2

theorem Charts.agrees (h : Charts memory root leaves) {leaf : Leaf} (hleaf : leaf ∈ leaves)
    {distance : Nat} (hdistance : distance < leaf.size) :
    hardwareWalk memory root (leaf.va + distance) = some (leaf.gpa + distance) := by
  have hcovers : leaf.span.Covers (leaf.va + distance) := by
    unfold Leaf.span Span.Covers
    simp only
    omega
  obtain ⟨hcanonical, hlow⟩ :=
    ((h.proper leaf hleaf).covers_iff (h.room hleaf) _).mp hcovers
  unfold hardwareWalk
  rw [if_pos hcanonical]
  have hroom := h.room hleaf
  have hsame : (leaf.va + distance) % reach 4 = (leaf.low.start + distance) % reach 4 := by
    unfold Leaf.low reach
    simp only
    omega
  rw [pageWalk_congr memory _ hsame]
  exact h.maps.agrees leaf.low (List.mem_map_of_mem hleaf) distance hdistance

theorem Charts.ascending (h : Charts memory root leaves) :
    leaves.Pairwise fun first second => first.span.Below second.span := by
  have hlow := List.pairwise_map.mp h.maps.ascending
  apply List.Pairwise.imp_of_mem _ hlow
  intro first second hfirst hsecond hbelow
  exact (h.proper first hfirst).below (h.proper second hsecond) hbelow

theorem dedupByKey_of_pairwise {key : Leaf → Nat}
    (h : leaves.Pairwise fun first second => key first ≠ key second) :
    dedupByKey key leaves = leaves := by
  cases leaves with
  | nil => rfl
  | cons kept leaves =>
    unfold dedupByKey
    simp only
    induction leaves generalizing kept with
    | nil => rfl
    | cons leaf leaves ih =>
      rw [List.pairwise_cons] at h
      unfold dedupFrom
      rw [if_neg (h.1 leaf List.mem_cons_self), ih leaf h.2]

theorem Charts.spans_new (h : Charts memory root leaves) :
    (AddressSpace.new leaves).spans = leaves := by
  have hlt : leaves.Pairwise fun first second => first.va < second.va := by
    apply List.Pairwise.imp_of_mem _ h.ascending
    intro first second hfirst _ hbelow
    have hpositive := (h.proper first hfirst).positive
    unfold Leaf.span Span.Below at hbelow
    simp only at hbelow
    omega
  unfold AddressSpace.new
  rw [List.mergeSort_of_pairwise, dedupByKey_of_pairwise]
  · exact hlt.imp fun h => Nat.ne_of_lt h
  · exact hlt.imp fun h => by simp [h]

end

/-! ### Translation -/

theorem getElem?_takeWhile {leaves : List Leaf} {keep : Leaf → Bool} {i : Nat}
    (h : i < (leaves.takeWhile keep).length) : (leaves.takeWhile keep)[i]? = leaves[i]? := by
  have hsame : (leaves.takeWhile keep ++ leaves.dropWhile keep)[i]? =
      (leaves.takeWhile keep)[i]? := List.getElem?_append_left h
  rw [List.takeWhile_append_dropWhile] at hsame
  exact hsame.symm

namespace AddressSpace

theorem translate_eq (space : AddressSpace) (va : Nat) :
    space.translate va = (Span.lookup Leaf.span space.spans va).bind fun leaf =>
      if va - leaf.va < leaf.size then some (offset leaf.gpa (va - leaf.va)) else none := by
  have hlast : (checkedSub (space.partitionPoint va) 1).bind (space.spans[·]?) =
      Span.lookup Leaf.span space.spans va := by
    have hpartition : space.partitionPoint va =
        (space.spans.takeWhile fun leaf => leaf.span.start ≤ va).length := rfl
    unfold checkedSub Span.lookup
    rw [hpartition, List.getLast?_eq_getElem?]
    split
    · rw [Option.bind_some]
      exact (getElem?_takeWhile (by omega)).symm
    · next hnone =>
      rw [List.getElem?_eq_none (by omega)]
      rfl
  unfold translate
  rw [← Option.bind_assoc, hlast]
  cases hleaf : Span.lookup Leaf.span space.spans va with
  | none => rfl
  | some leaf =>
    have hle : leaf.va ≤ va := (Span.lookup_mem Leaf.span hleaf).2
    simp only [checkedSub, Option.bind_some, if_pos hle]

end AddressSpace

section
variable {memory : Nat → UInt8} {root : Nat} {leaves : List Leaf}

/-- An address translates where one of the leaves covers it, and to that leaf's frame. -/
theorem Charts.translate_iff (h : Charts memory root leaves) (va gpa : Nat) :
    (AddressSpace.new leaves).translate va = some gpa ↔
      ∃ leaf ∈ leaves, leaf.span.Covers va ∧ gpa = leaf.gpa + (va - leaf.va) := by
  have hframe : ∀ leaf ∈ leaves, va - leaf.va < leaf.size →
      offset leaf.gpa (va - leaf.va) = leaf.gpa + (va - leaf.va) := by
    intro leaf hleaf hlt
    have hroom : leaf.gpa + leaf.size ≤ 2 ^ 64 := (h.proper leaf hleaf).regular.room
    unfold offset
    exact Nat.mod_eq_of_lt (by omega)
  rw [AddressSpace.translate_eq, h.spans_new]
  constructor
  · intro htranslate
    obtain ⟨leaf, hlookup, hgpa⟩ := Option.bind_eq_some_iff.mp htranslate
    obtain ⟨hleaf, hle⟩ := Span.lookup_mem Leaf.span hlookup
    split at hgpa
    · next hlt =>
      refine ⟨leaf, hleaf, ⟨hle, ?_⟩, ?_⟩
      · unfold Leaf.span at hle ⊢
        simp only at hle ⊢
        omega
      · rw [← Option.some.inj hgpa, hframe leaf hleaf hlt]
    · cases hgpa
  · rintro ⟨leaf, hleaf, hcovers, rfl⟩
    rw [Span.lookup_of_covers Leaf.span h.ascending hleaf hcovers, Option.bind_some]
    have hlt : va - leaf.va < leaf.size := by
      unfold Leaf.span Span.Covers at hcovers
      simp only at hcovers
      omega
    rw [if_pos hlt, hframe leaf hleaf hlt]

theorem Charts.translate_sound (h : Charts memory root leaves) {va gpa : Nat}
    (htranslate : (AddressSpace.new leaves).translate va = some gpa) :
    hardwareWalk memory root va = some gpa := by
  obtain ⟨leaf, hleaf, hcovers, rfl⟩ := (h.translate_iff va gpa).mp htranslate
  unfold Leaf.span Span.Covers at hcovers
  simp only at hcovers
  have hagrees := h.agrees hleaf (by omega : va - leaf.va < leaf.size)
  rwa [Nat.add_sub_cancel' hcovers.1] at hagrees

theorem Charts.translate_complete (h : Charts memory root leaves)
    (hexhausts : Span.Exhausts (pageWalk memory 4 (page root)) 0 (2 ^ 48) (leaves.map Leaf.low))
    {va gpa : Nat} (hwalk : hardwareWalk memory root va = some gpa) :
    (AddressSpace.new leaves).translate va = some gpa := by
  unfold hardwareWalk at hwalk
  split at hwalk
  · next hcanonical =>
    have hsame : va % reach 4 = va % 2 ^ 48 % reach 4 := by
      unfold reach
      omega
    rw [pageWalk_congr memory _ hsame] at hwalk
    obtain ⟨span, hspan, hcovers⟩ := hexhausts (va % 2 ^ 48) (Nat.zero_le _)
      (Nat.mod_lt _ (by decide)) (by rw [hwalk]; rfl)
    obtain ⟨leaf, hleaf, rfl⟩ := List.mem_map.mp hspan
    have hrange := ((h.proper leaf hleaf).covers_iff (h.room hleaf) va).mpr ⟨hcanonical, hcovers⟩
    have htranslate := (h.translate_iff va _).mpr ⟨leaf, hleaf, hrange, rfl⟩
    have hsound := h.translate_sound htranslate
    unfold hardwareWalk at hsound
    rw [if_pos hcanonical, pageWalk_congr memory _ hsame, hwalk] at hsound
    rw [htranslate, hsound]
  · cases hwalk

end

theorem whole_of_complete {source : Source} {root : Nat} {budgets : Budgets}
    (hcomplete : (walkWithin source root budgets).2.complete = true)
    (haliases : (walkWithin source root budgets).2.aliasPrefixesSkipped = 0) :
    (Descent.descend source budgets 4 {} (page root) 0).Whole := by
  unfold walkWithin WalkStats.complete at hcomplete
  unfold walkWithin at haliases
  simp only at hcomplete haliases
  generalize Descent.descend source budgets 4 {} (page root) 0 = state at hcomplete haliases ⊢
  split at hcomplete
  · cases hcomplete
  · next hcounts =>
    rw [if_neg hcounts] at haliases
    have hincomplete : state.stats.incomplete = none := Option.isNone_iff_eq_none.mp hcomplete
    refine ⟨hincomplete, ?_, haliases⟩
    simpa [hincomplete] using hcounts

/-- What `walk_within` returns charts the tree, and the whole of it when its counters
say so. -/
theorem walkWithin_charts (source : Source) (root : Nat) (budgets : Budgets) :
    Charts source.memory root (walkWithin source root budgets).1 ∧
      ((walkWithin source root budgets).2.complete = true →
        (walkWithin source root budgets).2.aliasPrefixesSkipped = 0 →
        NoSelfMap source.memory root →
        Span.Exhausts (pageWalk source.memory 4 (page root)) 0 (2 ^ 48)
          ((walkWithin source root budgets).1.map Leaf.low)) := by
  have hempty : Descent.Faithful source.memory {} := ⟨nofun, nofun⟩
  have hdescends : Descends source.memory root 4 (Descent.descend source budgets 4) :=
    descend_enumerates budgets source (Nat.le_refl 4)
  obtain ⟨found, hfound⟩ := hdescends {} (page root) 0 hempty (pageAligned_page root) (Nat.dvd_zero _) (by unfold reach; decide)
  have hleaves : (walkWithin source root budgets).1 = found := hfound.adds.leaves
  have hreach : 0 + reach 4 = 2 ^ 48 := by decide
  rw [hleaves, ← hreach]
  refine ⟨⟨hfound.proper, hfound.maps⟩, ?_⟩
  intro hcomplete haliases hself
  exact hfound.exhausts (whole_of_complete hcomplete haliases) ⟨.root, hself⟩

/-! ### Virtual reads -/

namespace Space

def Readable (space : Space) (va : Nat) : Prop :=
  ∃ gpa bytes, space.space.translate (SecureKernel.page va) = some gpa ∧
    space.reader.read gpa pageSize = .ok bytes

theorem page_ok_iff {space : Space} {va : Nat} {bytes : List UInt8} :
    space.page va = .ok bytes ↔
      ∃ gpa, space.space.translate (SecureKernel.page va) = some gpa ∧
        space.reader.read gpa pageSize = .ok bytes := by
  unfold page
  simp only
  cases htranslate : space.space.translate (SecureKernel.page va) with
  | none => simp
  | some gpa =>
    simp only [Option.some.injEq, exists_eq_left']
    cases space.reader.read gpa pageSize with
    | ok read => simp
    | error failure => simp

end Space

theorem Charts.translate_page {memory : Nat → UInt8} {root : Nat} {leaves : List Leaf}
    (h : Charts memory root leaves) {va gpa distance : Nat} (hva : pageSize ∣ va)
    (htranslate : (AddressSpace.new leaves).translate va = some gpa)
    (hdistance : distance < pageSize) :
    PageAligned gpa ∧ (AddressSpace.new leaves).translate (va + distance) = some (gpa + distance) := by
  obtain ⟨leaf, hleaf, hcovers, rfl⟩ := (h.translate_iff va gpa).mp htranslate
  have hregular := (h.proper leaf hleaf).regular
  have hroom : leaf.gpa + leaf.size ≤ 2 ^ 64 := hregular.room
  have htarget : pageSize ∣ leaf.gpa := hregular.target
  have hsize : pageSize ∣ leaf.size := hregular.size
  have hstart : pageSize ∣ leaf.va := by
    have hlow : pageSize ∣ leaf.va % 2 ^ 48 := hregular.start
    exact (Nat.dvd_mod_iff (by decide)).mp hlow
  unfold Leaf.span Span.Covers at hcovers
  simp only at hcovers
  -- Both ends of the leaf are page boundaries, so the page does not stick out of it.
  have hfits : va - leaf.va + pageSize ≤ leaf.size := by
    obtain ⟨i, rfl⟩ := hva
    obtain ⟨j, hj⟩ := hstart
    obtain ⟨k, hk⟩ := hsize
    unfold pageSize at *
    omega
  constructor
  · refine ⟨Nat.dvd_add htarget (Nat.dvd_sub hva hstart), ?_⟩
    have : 0 < pageSize := by decide
    omega
  · apply (h.translate_iff _ _).mpr
    refine ⟨leaf, hleaf, ?_, by omega⟩
    unfold Leaf.span Span.Covers
    simp only
    omega

/-- A space that translates a page, if any of it, as a whole, and to a page. -/
structure AddressSpace.Paged (space : AddressSpace) : Prop where
  starts : ∀ {va gpa : Nat}, va < 2 ^ 64 → space.translate va = some gpa →
    (space.translate (page va)).isSome = true
  whole : ∀ {va gpa distance : Nat}, pageSize ∣ va → space.translate va = some gpa →
    distance < pageSize →
      PageAligned gpa ∧ space.translate (va + distance) = some (gpa + distance)

theorem Charts.paged {memory : Nat → UInt8} {root : Nat} {leaves : List Leaf}
    (h : Charts memory root leaves) : (AddressSpace.new leaves).Paged where
  starts := by
    intro va gpa hva htranslate
    obtain ⟨leaf, hleaf, hcovers, -⟩ := (h.translate_iff va gpa).mp htranslate
    have hstart : pageSize ∣ leaf.va := by
      have hlow : pageSize ∣ leaf.va % 2 ^ 48 := (h.proper leaf hleaf).regular.start
      exact (Nat.dvd_mod_iff (by decide)).mp hlow
    have hpage : leaf.span.Covers (page va) := by
      rw [page_eq hva]
      unfold Leaf.span Span.Covers at hcovers ⊢
      simp only at hcovers ⊢
      unfold pageSize at *
      omega
    rw [(h.translate_iff (page va) _).mpr ⟨leaf, hleaf, hpage, rfl⟩]
    rfl
  whole := h.translate_page

theorem AddressSpace.Paged.translate_add {space : AddressSpace} (h : space.Paged)
    {va gpa i : Nat} (hva : va < 2 ^ 64) (htranslate : space.translate va = some gpa)
    (hi : va % pageSize + i < pageSize) : space.translate (va + i) = some (gpa + i) := by
  obtain ⟨frame, hframe⟩ := Option.isSome_iff_exists.mp (h.starts hva htranslate)
  have haligned : pageSize ∣ page va := (pageAligned_page va).dvd
  have hsum : va = page va + va % pageSize := by
    rw [page_eq hva, Nat.div_add_mod']
  have hhere := (h.whole haligned hframe (by omega : va % pageSize < pageSize)).2
  have hthere := (h.whole haligned hframe hi).2
  rw [← hsum, htranslate] at hhere
  rw [← Nat.add_assoc, ← hsum, ← Nat.add_assoc, ← Option.some.inj hhere] at hthere
  exact hthere

namespace Space

def byteAt (space : Space) (va : Nat) : Option UInt8 :=
  (space.space.translate va).map space.reader.memory

theorem same_page {start i : Nat} (hstart : start < 2 ^ 64)
    (hi : i < pageSize - offsetInPage start) :
    offset start i = SecureKernel.page start + (offsetInPage start + i) ∧
      SecureKernel.page (offset start i) = SecureKernel.page start := by
  rw [offsetInPage_eq] at *
  have hlt : start + i < 2 ^ 64 := by
    unfold pageSize at hi
    omega
  have hoffset : offset start i = start + i := Nat.mod_eq_of_lt hlt
  rw [hoffset, page_eq hstart, page_eq hlt]
  unfold pageSize at *
  omega

section
variable {space : Space} (hpaged : space.space.Paged)

include hpaged in
/-- The part of a page the loop takes is what translation gives byte by byte. -/
theorem chunk_eq {start take : Nat} {bytes : List UInt8} (hstart : start < 2 ^ 64)
    (hpage : space.page start = .ok bytes) (htake : take ≤ pageSize - offsetInPage start) :
    ((bytes.drop (offsetInPage start)).take take).map some =
      (List.range take).map fun i => space.byteAt (offset start i) := by
  obtain ⟨gpa, htranslate, hread⟩ := page_ok_iff.mp hpage
  have haligned : pageSize ∣ SecureKernel.page start := (pageAligned_page start).dvd
  have hgpa := (hpaged.whole haligned htranslate (by decide : 0 < pageSize)).1
  have hbytes : bytes = (List.range pageSize).map fun i => space.reader.memory (gpa + i) := by
    rw [space.reader.read_ok hread]
    apply List.map_congr_left
    intro i hi
    rw [hgpa.offset_eq (List.mem_range.mp hi)]
  have hskip : offsetInPage start < pageSize := by
    rw [offsetInPage_eq]
    exact Nat.mod_lt _ (by decide)
  rw [hbytes, slice_page (by omega), List.map_map]
  apply List.map_congr_left
  intro i hi
  have hi : i < take := List.mem_range.mp hi
  have hbyte := (hpaged.whole haligned htranslate
    (by omega : offsetInPage start + i < pageSize)).2
  rw [(same_page hstart (by omega)).1]
  unfold byteAt
  rw [hbyte]
  simp [Nat.add_assoc]

include hpaged in
theorem readPages_ok {va done remaining : Nat} {bytes : List UInt8}
    (h : space.readPages va done remaining = .ok bytes) :
    (∀ i < remaining, space.Readable (offset va (done + i))) ∧
      bytes.map some = (List.range remaining).map fun i => space.byteAt (offset va (done + i)) := by
  induction remaining using Nat.strongRecOn generalizing done bytes with
  | ind remaining ih =>
    unfold readPages at h
    split at h
    · next hzero =>
      obtain rfl := Except.ok.inj h
      subst hzero
      exact ⟨nofun, rfl⟩
    · next hmore =>
      simp only at h
      split at h
      · cases h
      · next read hpage =>
        have hstart : offset va done < 2 ^ 64 := Nat.mod_lt _ (by decide)
        have hskip : offsetInPage (offset va done) < pageSize := by
          rw [offsetInPage_eq]
          exact Nat.mod_lt _ (by decide)
        generalize htake : min remaining (pageSize - offsetInPage (offset va done)) = take at h
        cases hrest : space.readPages va (done + take) (remaining - take) with
        | error failure => rw [hrest] at h; cases h
        | ok rest =>
          rw [hrest] at h
          obtain rfl := Except.ok.inj h
          obtain ⟨hreadable, hvalues⟩ := ih (remaining - take) (by omega) hrest
          constructor
          · intro i hi
            by_cases hhere : i < take
            · obtain ⟨gpa, hgpa⟩ := page_ok_iff.mp hpage
              rw [← offset_offset]
              unfold Readable
              rw [(same_page hstart (by omega)).2]
              exact ⟨gpa, read, hgpa⟩
            · have hlater := hreadable (i - take) (by omega)
              rwa [show done + take + (i - take) = done + i by omega] at hlater
          · rw [List.map_append, chunk_eq hpaged hstart hpage (by omega), hvalues]
            conv => rhs; rw [show remaining = take + (remaining - take) by omega, List.range_add]
            rw [List.map_append, List.map_map]
            simp only [offset_offset]
            congr 1
            apply List.map_congr_left
            intro i _
            simp only [Function.comp_apply, Nat.add_assoc]

theorem readPages_of_readable {va done remaining : Nat}
    (h : ∀ i < remaining, space.Readable (offset va (done + i))) :
    ∃ bytes, space.readPages va done remaining = .ok bytes := by
  induction remaining using Nat.strongRecOn generalizing done with
  | ind remaining ih =>
    unfold readPages
    split
    · exact ⟨[], rfl⟩
    · next hmore =>
      obtain ⟨gpa, read, hgpa⟩ := h 0 (by omega)
      rw [Nat.add_zero] at hgpa
      have hpage : space.page (offset va done) = .ok read := page_ok_iff.mpr ⟨gpa, hgpa⟩
      simp only [hpage]
      have hskip : offsetInPage (offset va done) < pageSize := by
        rw [offsetInPage_eq]
        exact Nat.mod_lt _ (by decide)
      generalize htake : min remaining (pageSize - offsetInPage (offset va done)) = take
      obtain ⟨rest, hrest⟩ := ih (remaining - take) (by omega) (fun i hi => by
        rw [Nat.add_assoc]
        exact h (take + i) (by omega))
      rw [hrest]
      exact ⟨_, rfl⟩

end

def Fits (va length : Nat) : Prop := length = 0 ∨ va + (length - 1) < 2 ^ 64

theorem readSpan_eq {space : Space} {va length : Nat} (h : Fits va length) :
    space.readSpan va length = space.readPages va 0 length := by
  unfold readSpan
  rw [if_neg]
  unfold Fits at h
  simp only [gt_iff_lt, ge_iff_le, Bool.and_eq_true, decide_eq_true_eq]
  omega

theorem fits_of_readSpan {space : Space} {va length : Nat} {bytes : List UInt8}
    (h : space.readSpan va length = .ok bytes) : Fits va length := by
  unfold readSpan at h
  split at h
  · cases h
  · next hspan =>
    simp only [gt_iff_lt, ge_iff_le, Bool.and_eq_true, decide_eq_true_eq] at hspan
    unfold Fits
    omega

theorem offset_of_fits {va length i : Nat} (h : Fits va length) (hi : i < length) :
    offset va (0 + i) = va + i := by
  unfold Fits at h
  unfold offset
  rw [Nat.zero_add]
  exact Nat.mod_eq_of_lt (by omega)

theorem readSpan_ok_iff {space : Space} {root : Nat} {leaves : List Leaf}
    (hspace : space.space = AddressSpace.new leaves)
    (hcharts : Charts space.reader.memory root leaves) (va length : Nat) :
    (∃ bytes, space.readSpan va length = .ok bytes) ↔
      Fits va length ∧ ∀ i < length, space.Readable (va + i) := by
  constructor
  · rintro ⟨bytes, h⟩
    have hfits := fits_of_readSpan h
    rw [readSpan_eq hfits] at h
    refine ⟨hfits, ?_⟩
    intro i hi
    rw [← offset_of_fits hfits hi]
    exact (readPages_ok (hspace ▸ hcharts.paged) h).1 i hi
  · rintro ⟨hfits, hreadable⟩
    rw [readSpan_eq hfits]
    apply readPages_of_readable
    intro i hi
    rw [offset_of_fits hfits hi]
    exact hreadable i hi

theorem readSpan_bytes_of_paged {space : Space} (hpaged : space.space.Paged) {va length : Nat} {bytes : List UInt8}
    (h : space.readSpan va length = .ok bytes) :
    bytes.length = length ∧ ∀ i < length, ∃ gpa, space.space.translate (va + i) = some gpa ∧
      bytes[i]? = some (space.reader.memory gpa) := by
  have hfits := fits_of_readSpan h
  rw [readSpan_eq hfits] at h
  have hvalues := (readPages_ok hpaged h).2
  have hlength : bytes.length = length := by
    have hlengths := congrArg List.length hvalues
    simpa using hlengths
  refine ⟨hlength, ?_⟩
  intro i hi
  have hvalue := congrArg (·[i]?) hvalues
  simp only [List.getElem?_map, List.getElem?_range hi, Option.map_some,
    offset_of_fits hfits hi] at hvalue
  rw [List.getElem?_eq_getElem (by omega), Option.map_some, Option.some.injEq] at hvalue
  obtain ⟨gpa, hgpa, hbyte⟩ := Option.map_eq_some_iff.mp hvalue.symm
  exact ⟨gpa, hgpa, by rw [List.getElem?_eq_getElem (by omega), hbyte]⟩

theorem readSpan_bytes {space : Space} {root : Nat} {leaves : List Leaf}
    (hspace : space.space = AddressSpace.new leaves)
    (hcharts : Charts space.reader.memory root leaves) {va length : Nat} {bytes : List UInt8}
    (h : space.readSpan va length = .ok bytes) :
    bytes.length = length ∧ ∀ i < length, ∃ gpa, space.space.translate (va + i) = some gpa ∧
      bytes[i]? = some (space.reader.memory gpa) :=
  readSpan_bytes_of_paged (hspace ▸ hcharts.paged) h

end Space

/-- The walk of any memory, from any root, over a source of any width: its leaves are
disjoint and say what the processor's walk says; translation through them is that walk,
all of it where the counters say nothing was left out; and a virtual read answers with
the bytes translation names whenever its pages can be read. -/
theorem translation_agrees (source : Source) (root : Nat) (budgets : Budgets) :
    let walked := walkWithin source root budgets
    let space := AddressSpace.new walked.1
    let reads : Space := ⟨source, space⟩
    (∀ leaf ∈ walked.1, ∀ distance < leaf.size,
        IsCanonical (leaf.va + distance) ∧
          hardwareWalk source.memory root (leaf.va + distance) = some (leaf.gpa + distance)) ∧
      walked.1.Pairwise (fun first second => ∀ va,
        ¬ (first.span.Covers va ∧ second.span.Covers va)) ∧
      (∀ va gpa, space.translate va = some gpa → hardwareWalk source.memory root va = some gpa) ∧
      (walked.2.complete = true → walked.2.aliasPrefixesSkipped = 0 →
        walked.2.malformedEntries = 0 → NoSelfMap source.memory root →
        ∀ va, (hardwareWalk source.memory root va).isSome = true →
          (space.translate va).isSome = true) ∧
      (∀ va length, (∃ bytes, reads.readSpan va length = .ok bytes) ↔
        Space.Fits va length ∧ ∀ i < length, reads.Readable (va + i)) ∧
      (∀ va length bytes, reads.readSpan va length = .ok bytes → bytes.length = length ∧
        ∀ i < length, ∃ gpa, space.translate (va + i) = some gpa ∧
          bytes[i]? = some (source.memory gpa)) := by
  intro walked space reads
  obtain ⟨hcharts, hexhausts⟩ := walkWithin_charts source root budgets
  refine ⟨?_, ?_, ?_, ?_, ?_, ?_⟩
  · intro leaf hleaf distance hdistance
    have hagrees := hcharts.agrees hleaf hdistance
    refine ⟨?_, hagrees⟩
    unfold hardwareWalk at hagrees
    split at hagrees
    · assumption
    · cases hagrees
  · apply hcharts.ascending.imp
    intro first second hbelow va hboth
    unfold Span.Below at hbelow
    unfold Span.Covers at hboth
    omega
  · exact fun va gpa => hcharts.translate_sound
  · intro hcomplete haliases _ hself va hmapped
    obtain ⟨gpa, hwalk⟩ := Option.isSome_iff_exists.mp hmapped
    have htranslate := hcharts.translate_complete (hexhausts hcomplete haliases hself) hwalk
    exact Option.isSome_iff_exists.mpr ⟨gpa, htranslate⟩
  · exact Space.readSpan_ok_iff rfl hcharts
  · exact fun va length bytes => Space.readSpan_bytes rfl hcharts

/-! ### A walk of two gigabyte leaves -/

theorem Source.readFrom_answered {source : Source}
    (h : ∀ gpa length, ∃ bytes, source.readChunk gpa length = .ok bytes)
    (gpa done remaining : Nat) : ∃ bytes, source.readFrom gpa done remaining = .ok bytes := by
  induction remaining using Nat.strongRecOn generalizing done with
  | ind remaining ih =>
    unfold readFrom
    by_cases hzero : remaining = 0
    · exact ⟨_, if_pos hzero⟩
    · obtain ⟨chunk, hchunk⟩ := h (offset gpa done) (min (max source.maxRead 1) remaining)
      obtain ⟨rest, hrest⟩ := ih (remaining - min (max source.maxRead 1) remaining) (by omega)
        (done + min (max source.maxRead 1) remaining)
      rw [if_neg hzero]
      simp only [hchunk, hrest]
      exact ⟨_, rfl⟩

/-- The state in which a table that read for the first time is expanded. -/
def Descent.entered (state : Descent) (level table : Nat) (entries : List Nat) : Descent :=
  { leaves := state.leaves
    stats :=
      { state.stats with
        tableReads := state.stats.tableReads + 1
        tablesDecoded := state.stats.tablesDecoded + 1 }
    visited := (state.visit level table).visited
    cache := Function.update state.cache table (some (some entries)) }

theorem Descent.entered_visited {level other : Nat} (state : Descent) (table : Nat)
    (entries : List Nat) (h : other ≠ level) :
    (state.entered level table entries).visited other = state.visited other :=
  Function.update_of_ne h _ _

theorem Descent.entered_cache {table other : Nat} (state : Descent) (level : Nat)
    (entries : List Nat) (h : other ≠ table) :
    (state.entered level table entries).cache other = state.cache other :=
  Function.update_of_ne h _ _

theorem Descent.descend_fresh {source : Source} {budgets : Budgets} {state : Descent}
    {below table : Nat} {bytes : List UInt8} (va : Nat) (htable : PageAligned table)
    (hopen : state.stats.incomplete = none) (hvisited : table ∉ state.visited (3 - below))
    (hcache : state.cache table = none) (hbudget : state.stats.tableReads < budgets.tableReads)
    (hread : source.read table pageSize = .ok bytes) :
    state.descend source budgets (below + 1) table va =
      expand budgets (descend source budgets below) table (3 - below) va
        (tableEntries source.memory table) 0
        (state.entered (3 - below) table (tableEntries source.memory table)) := by
  have hfresh : (state.visit (3 - below) table).cache table = none := hcache
  have hroom : ¬ (state.visit (3 - below) table).stats.tableReads ≥ budgets.tableReads :=
    Nat.not_le.mpr hbudget
  unfold Descent.descend Descent.table
  dsimp only
  rw [hfresh]
  simp only [hopen, Option.isSome_none, Bool.false_eq_true, if_false, if_neg hvisited,
    if_neg hroom, hread, words_page htable hread]
  rfl

theorem Descent.expand_absent {budgets : Budgets} (descend : Descent → Nat → Nat → Descent)
    (table level va count index : Nat) (state : Descent) :
    expand budgets descend table level va (List.replicate count 0) index state = state := by
  induction count generalizing index with
  | zero => rfl
  | succ count ih => exact ih (index + 1)

section
variable {budgets : Budgets} {state : Descent} {entry address size level : Nat}
  (descend : Descent → Nat → Nat → Descent) (table va index : Nat) (entries : List Nat)

theorem Descent.expand_leaf (hroom : state.leaves.length < budgets.leaves)
    (hentry : decodeEntry entry level = some ⟨.leaf, address, size, false⟩) :
    expand budgets descend table level va (entry :: entries) index state =
      expand budgets descend table level va entries (index + 1)
        (state.push ⟨canonical (va ||| index <<< (39 - 9 * level)), address, size⟩) := by
  rw [expand, hentry]
  simp only [Bool.false_eq_true, if_false]
  rw [if_neg (Nat.not_le.mpr hroom)]

theorem Descent.expand_table
    (hentry : decodeEntry entry level = some ⟨.table, address, size, false⟩)
    (hother : address ≠ page table)
    (hopen : (descend state address (va ||| index <<< (39 - 9 * level))).stats.incomplete = none) :
    expand budgets descend table level va (entry :: entries) index state =
      expand budgets descend table level va entries (index + 1)
        (descend state address (va ||| index <<< (39 - 9 * level))) := by
  rw [expand, hentry]
  simp only [Bool.false_eq_true, if_false]
  rw [if_neg hother, hopen]
  rfl

end

theorem tableEntries_absent {memory : Nat → UInt8} {table : Nat} (present absent : Nat)
    (h : present + absent = 512)
    (habsent : ∀ gpa, table + 8 * present ≤ gpa → gpa < table + pageSize → memory gpa = 0) :
    tableEntries memory table =
      (List.range' 0 present).map (entryAt memory table) ++ List.replicate absent 0 := by
  unfold tableEntries
  rw [← h, ← List.range'_append_1, List.map_append, Nat.zero_add]
  congr 1
  rw [List.eq_replicate_iff]
  refine ⟨by simp, ?_⟩
  intro entry hentry
  obtain ⟨index, hindex, rfl⟩ := List.mem_map.mp hentry
  rw [List.mem_range'_1] at hindex
  have hzero : ((List.range 8).map fun i => memory (table + 8 * index + i)) =
      List.replicate 8 0 := by
    rw [List.eq_replicate_iff]
    refine ⟨by simp, ?_⟩
    intro byte hbyte
    obtain ⟨i, hi, rfl⟩ := List.mem_map.mp hbyte
    rw [List.mem_range] at hi
    exact habsent _ (by omega) (by unfold pageSize; omega)
  unfold entryAt
  rw [hzero]
  rfl

theorem walkWithin_leaves (source : Source) (root : Nat) (budgets : Budgets) :
    (walkWithin source root budgets).1 =
      (Descent.descend source budgets 4 {} (page root) 0).leaves := rfl

namespace Sample

/-- A root table whose first entry is a table of two gigabyte leaves, next to each other. -/
def memory (gpa : Nat) : UInt8 :=
  if gpa = 0x1000 then 0x03
  else if gpa = 0x1001 then 0x20
  else if gpa = 0x2000 ∨ gpa = 0x2008 then 0x83
  else if gpa = 0x200b then 0x40
  else 0

def source : Source where
  memory := memory
  maxRead := pageSize
  readChunk := fun gpa length => .ok ((List.range length).map fun i => memory (offset gpa i))
  faithful := fun _ _ _ h => (Except.ok.inj h).symm

theorem read_page (gpa : Nat) : ∃ bytes, source.read gpa pageSize = .ok bytes :=
  Source.readFrom_answered (fun _ _ => ⟨_, rfl⟩) gpa 0 pageSize

theorem root_entries : tableEntries source.memory 0x1000 = 0x2003 :: List.replicate 511 0 := by
  have hentry : entryAt source.memory 0x1000 0 = 0x2003 := by decide +kernel
  rw [tableEntries_absent 1 511 rfl]
  · rw [List.range'_one, List.map_singleton, hentry, List.singleton_append]
  · intro gpa hlow hhigh
    unfold pageSize at hhigh
    simp only [source, memory]
    rw [if_neg (by omega), if_neg (by omega), if_neg (by omega), if_neg (by omega)]

theorem next_entries : tableEntries source.memory 0x2000 =
    0x83 :: 0x40000083 :: List.replicate 510 0 := by
  have hfirst : entryAt source.memory 0x2000 0 = 0x83 := by decide +kernel
  have hsecond : entryAt source.memory 0x2000 1 = 0x40000083 := by decide +kernel
  rw [tableEntries_absent 2 510 rfl]
  · simp only [List.range', List.map_cons, List.map_nil, hfirst, hsecond, List.cons_append,
      List.nil_append]
  · intro gpa hlow hhigh
    simp only [source, memory]
    rw [if_neg (by omega), if_neg (by omega), if_neg (by omega), if_neg (by omega)]

theorem descend_next {state : Descent} (hopen : state.stats.incomplete = none)
    (hvisited : 0x2000 ∉ state.visited 1) (hcache : state.cache 0x2000 = none)
    (hbudget : state.stats.tableReads < 20000) (hleaves : state.leaves = []) :
    (state.descend source {} 3 0x2000 0).leaves = [⟨0, 0, 2 ^ 30⟩, ⟨2 ^ 30, 2 ^ 30, 2 ^ 30⟩] ∧
      (state.descend source {} 3 0x2000 0).stats.incomplete = none := by
  have hnext : PageAligned 0x2000 := ⟨by decide, by decide⟩
  obtain ⟨bytes, hread⟩ := read_page 0x2000
  have hlow : decodeEntry 0x83 (3 - 2) = some ⟨.leaf, 0, 2 ^ 30, false⟩ := by decide +kernel
  have hhigh : decodeEntry 0x40000083 (3 - 2) = some ⟨.leaf, 2 ^ 30, 2 ^ 30, false⟩ := by decide +kernel
  rw [Descent.descend_fresh _ hnext hopen hvisited hcache hbudget hread, next_entries]
  generalize hentered : state.entered _ _ _ = entered
  have hnone : entered.leaves = [] := by rw [← hentered]; exact hleaves
  have hstill : entered.stats.incomplete = none := by rw [← hentered]; exact hopen
  rw [Descent.expand_leaf _ _ _ _ _ (by simp [hnone]) hlow,
    Descent.expand_leaf _ _ _ _ _ (by simp [hnone, Descent.push]) hhigh,
    Descent.expand_absent]
  have hfirst : canonical (0 ||| 0 <<< (39 - 9 * (3 - 2))) = 0 := by decide +kernel
  have hsecond : canonical (0 ||| (0 + 1) <<< (39 - 9 * (3 - 2))) = 2 ^ 30 := by decide +kernel
  unfold Descent.push
  rw [hnone, hfirst, hsecond]
  exact ⟨rfl, hstill⟩

theorem leaves_walked : (walkWithin source 0x1000 {}).1 =
    [⟨0, 0, 2 ^ 30⟩, ⟨2 ^ 30, 2 ^ 30, 2 ^ 30⟩] := by
  have hroot : PageAligned 0x1000 := ⟨by decide, by decide⟩
  obtain ⟨bytes, hread⟩ := read_page 0x1000
  have htable : decodeEntry 0x2003 0 = some ⟨.table, 0x2000, 0, false⟩ := by decide +kernel
  rw [walkWithin_leaves, hroot.page_eq,
    Descent.descend_fresh 0 hroot rfl (by simp) rfl (by decide) hread, root_entries]
  generalize hentries : 0x2003 :: List.replicate 511 0 = entries
  have hnext := @descend_next (Descent.entered {} (3 - 3) 0x1000 entries) rfl
    (by rw [Descent.entered_visited _ _ _ (by decide)]; exact List.not_mem_nil)
    (Descent.entered_cache _ _ _ (by decide)) (by decide : 0 + 1 < 20000) rfl
  rw [← hentries] at hnext ⊢
  rw [Descent.expand_table _ _ _ _ _ htable (by rw [hroot.page_eq]; decide) hnext.2,
    Descent.expand_absent]
  exact hnext.1

end Sample
theorem translation_agrees_gigabytes :
    (∀ distance < 2 ^ 30, hardwareWalk Sample.source.memory 0x1000 (2 ^ 30 + distance) =
        some (2 ^ 30 + distance)) ∧
      ∃ bytes, Space.readSpan ⟨Sample.source, .new (walkWithin Sample.source 0x1000 {}).1⟩
        (2 ^ 30 - 1) 2 = .ok bytes := by
  obtain ⟨hleaves, _, _, _, hreads, _⟩ := translation_agrees Sample.source 0x1000 {}
  have hcharts := (walkWithin_charts Sample.source 0x1000 {}).1
  rw [Sample.leaves_walked] at hleaves hreads hcharts ⊢
  refine ⟨fun distance hdistance =>
    (hleaves ⟨2 ^ 30, 2 ^ 30, 2 ^ 30⟩ (by simp) distance hdistance).2, ?_⟩
  refine (hreads _ _).mpr ⟨Or.inr (by decide), ?_⟩
  have hreadable : ∀ va, (∃ leaf ∈ [⟨0, 0, 2 ^ 30⟩, ⟨2 ^ 30, 2 ^ 30, 2 ^ 30⟩],
      Span.Covers (Leaf.span leaf) (page va)) →
      Space.Readable ⟨Sample.source, .new [⟨0, 0, 2 ^ 30⟩, ⟨2 ^ 30, 2 ^ 30, 2 ^ 30⟩]⟩ va := by
    rintro va ⟨leaf, hleaf, hcovers⟩
    have htranslate := (hcharts.translate_iff (page va) _).mpr ⟨leaf, hleaf, hcovers, rfl⟩
    obtain ⟨bytes, hread⟩ := Sample.read_page (leaf.gpa + (page va - leaf.va))
    exact ⟨_, bytes, htranslate, hread⟩
  intro i hi
  -- The first byte is the last of the low leaf, the second the first of the high one.
  obtain rfl | rfl : i = 0 ∨ i = 1 := by omega
  · exact hreadable _ ⟨⟨0, 0, 2 ^ 30⟩, by simp, ⟨by decide +kernel, by decide +kernel⟩⟩
  · exact hreadable _ ⟨⟨2 ^ 30, 2 ^ 30, 2 ^ 30⟩, by simp, ⟨by decide +kernel, by decide +kernel⟩⟩

end WindbgMcp.SecureKernel
