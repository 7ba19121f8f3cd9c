import Mathlib.Tactic.Ring
import WindbgMcp.SecureKernel.Descent

/-! What a descent enumerates: each leaf says what the processor's walk says, in
ascending order of addresses, and a descent that nothing cut short leaves no mapped
address out. -/
namespace WindbgMcp.SecureKernel
open Library

/-! ### Reads -/

theorem offset_offset (address first second : Nat) :
    offset (offset address first) second = offset address (first + second) := by
  unfold offset
  omega

theorem Source.readFrom_ok (source : Source) {gpa done remaining : Nat} {bytes : List UInt8}
    (h : source.readFrom gpa done remaining = .ok bytes) :
    bytes = (List.range remaining).map fun i => source.memory (offset gpa (done + i)) := by
  induction remaining using Nat.strongRecOn generalizing done bytes with
  | ind remaining ih =>
    unfold Source.readFrom at h
    split at h
    · next hzero =>
      obtain rfl := Except.ok.inj h
      rw [hzero]
      rfl
    · next hmore =>
      simp only at h
      split at h
      · cases h
      · next chunk hchunk =>
        cases hrest : source.readFrom gpa (done + min (max source.maxRead 1) remaining)
            (remaining - min (max source.maxRead 1) remaining) with
        | error failure => rw [hrest] at h; cases h
        | ok rest =>
          rw [hrest] at h
          obtain rfl := Except.ok.inj h
          have hsplit : remaining = min (max source.maxRead 1) remaining +
              (remaining - min (max source.maxRead 1) remaining) := by omega
          rw [ih _ (by omega) hrest, source.faithful _ _ _ hchunk]
          conv => rhs; rw [hsplit, List.range_add]
          simp only [List.map_append, List.map_map, offset_offset]
          congr 1
          apply List.map_congr_left
          intro i _
          simp only [Function.comp_apply, Nat.add_assoc]

theorem Source.read_ok (source : Source) {gpa length : Nat} {bytes : List UInt8}
    (h : source.read gpa length = .ok bytes) :
    bytes = (List.range length).map fun i => source.memory (offset gpa i) := by
  simpa using source.readFrom_ok h

structure PageAligned (gpa : Nat) : Prop where
  dvd : pageSize ∣ gpa
  lt : gpa < 2 ^ 64

theorem PageAligned.offset_eq {gpa i : Nat} (h : PageAligned gpa) (hi : i < pageSize) :
    offset gpa i = gpa + i := by
  obtain ⟨⟨frame, rfl⟩, hlt⟩ := h
  unfold offset pageSize at *
  omega

theorem PageAligned.page_eq {gpa : Nat} (h : PageAligned gpa) : page gpa = gpa := by
  rw [SecureKernel.page_eq h.lt]
  exact Nat.div_mul_cancel h.dvd

theorem pageAligned_page (address : Nat) : PageAligned (page address) := by
  unfold page
  rw [show pageSize = 2 ^ 12 from rfl, complement_mask (by decide)]
  exact ⟨Bits.dvd_field 12 64 address, Bits.field_lt (by decide) address⟩

theorem pageAligned_field (entry : Nat) : PageAligned (Bits.field 12 52 entry) where
  dvd := Bits.dvd_field 12 52 entry
  lt := Nat.lt_of_lt_of_le (Bits.field_lt (by decide) entry) (by decide)

def tableEntries (memory : Nat → UInt8) (table : Nat) : List Nat :=
  (List.range' 0 512).map (entryAt memory table)

theorem slice_page {memory : Nat → UInt8} {gpa length i width : Nat} (h : i + width ≤ length) :
    (((List.range length).map fun j => memory (gpa + j)).drop i).take width =
      (List.range width).map fun j => memory (gpa + i + j) := by
  apply List.ext_getElem
  · simp
    omega
  · intro j _ _
    simp [Nat.add_assoc]

theorem words_page {source : Source} {gpa : Nat} (h : PageAligned gpa) {bytes : List UInt8}
    (hread : source.read gpa pageSize = .ok bytes) :
    words bytes = tableEntries source.memory gpa := by
  have hbytes : bytes = (List.range pageSize).map fun i => source.memory (gpa + i) := by
    rw [source.read_ok hread]
    apply List.map_congr_left
    intro i hi
    rw [h.offset_eq (List.mem_range.mp hi)]
  unfold words tableEntries
  rw [hbytes, List.length_map, List.length_range, ← List.range_eq_range']
  apply List.map_congr_left
  intro i hi
  have hi : i < 512 := List.mem_range.mp hi
  unfold LittleEndian.slice entryAt
  rw [slice_page (by unfold pageSize; omega)]

/-! ### One entry of the processor's walk -/

/-- What `levels` levels of tables span. -/
def reach (levels : Nat) : Nat := 2 ^ (12 + 9 * levels)

theorem reach_succ (levels : Nat) : reach (levels + 1) = 512 * reach levels := by
  unfold reach
  rw [show 12 + 9 * (levels + 1) = 9 + (12 + 9 * levels) by omega, Nat.pow_add]

theorem reach_dvd (levels : Nat) : reach levels ∣ reach (levels + 1) :=
  ⟨512, by rw [reach_succ, Nat.mul_comm]⟩

theorem reach_pos (levels : Nat) : 0 < reach levels := Nat.two_pow_pos _

theorem pageWalk_entry (memory : Nat → UInt8) (table : Nat) {below va index : Nat}
    (hva : reach (below + 1) ∣ va) (hindex : index < 512) (address : Nat)
    (hlow : va + index * reach below ≤ address)
    (hhigh : address < va + (index + 1) * reach below) :
    pageWalk memory (below + 1) table address =
      match follow (entryAt memory table index) below with
      | .fault => none
      | .next table => pageWalk memory below table address
      | .frame frame => some (frame + (address - (va + index * reach below))) := by
  obtain ⟨quotient, rfl⟩ := hva
  have hw : 0 < reach below := reach_pos below
  have hbase : reach (below + 1) * quotient + index * reach below =
      (512 * quotient + index) * reach below := by
    rw [reach_succ]
    ring
  have hnext : reach (below + 1) * quotient + (index + 1) * reach below =
      (512 * quotient + index) * reach below + reach below := by
    rw [← hbase]
    ring
  rw [hbase] at hlow ⊢
  rw [hnext] at hhigh
  obtain ⟨rest, rfl⟩ := Nat.exists_eq_add_of_le hlow
  have hrest : rest < reach below := by omega
  have hdiv : ((512 * quotient + index) * reach below + rest) / reach below =
      512 * quotient + index := by
    rw [Nat.mul_comm, Nat.mul_add_div hw, Nat.div_eq_of_lt hrest, Nat.add_zero]
  have hmod : ((512 * quotient + index) * reach below + rest) % reach below = rest := by
    rw [Nat.mul_comm, Nat.mul_add_mod, Nat.mod_eq_of_lt hrest]
  have hdigit : ((512 * quotient + index) * reach below + rest) / 2 ^ (12 + 9 * below) % 512 =
      index := by
    rw [show 2 ^ (12 + 9 * below) = reach below from rfl, hdiv]
    omega
  conv => lhs; unfold pageWalk
  rewrite [hdigit, show 2 ^ (12 + 9 * below) = reach below from rfl, hmod,
    Nat.add_sub_cancel_left]
  cases follow (entryAt memory table index) below <;> rfl

/-! ### The descent's own bookkeeping -/

namespace Descent

/-- Nothing was left out: no budget ran out, no table failed to read, no alias was skipped. -/
structure Whole (state : Descent) : Prop where
  incomplete : state.stats.incomplete = none
  readable : state.stats.unreadableTables = 0
  aliases : state.stats.aliasPrefixesSkipped = 0

/-- What is cached is in memory, and a table that did not read has been counted. -/
structure Faithful (memory : Nat → UInt8) (state : Descent) : Prop where
  entries : ∀ gpa entries, state.cache gpa = some (some entries) →
    entries = tableEntries memory gpa
  unreadable : ∀ gpa, state.cache gpa = some none → 0 < state.stats.unreadableTables

structure Adds (memory : Nat → UInt8) (before after : Descent) (found : List Leaf) : Prop where
  leaves : after.leaves = before.leaves ++ found
  faithful : before.Faithful memory → after.Faithful memory
  whole : after.Whole → before.Whole

section
variable {memory : Nat → UInt8} {before middle after : Descent} {found later : List Leaf}

theorem adds_of_eq (hleaves : after.leaves = before.leaves) (hcache : after.cache = before.cache)
    (hunreadable : after.stats.unreadableTables = before.stats.unreadableTables)
    (hwhole : after.Whole → before.Whole) : Adds memory before after [] where
  leaves := by rw [hleaves, List.append_nil]
  faithful := by
    intro h
    refine ⟨?_, ?_⟩
    · rw [hcache]
      exact h.entries
    · rw [hcache, hunreadable]
      exact h.unreadable
  whole := hwhole

theorem adds_refl : Adds memory before before [] := adds_of_eq rfl rfl rfl id

theorem Adds.trans (h : Adds memory before middle found) (hlater : Adds memory middle after later) :
    Adds memory before after (found ++ later) where
  leaves := by rw [hlater.leaves, h.leaves, List.append_assoc]
  faithful := fun hfaithful => hlater.faithful (h.faithful hfaithful)
  whole := fun hwhole => h.whole (hlater.whole hwhole)

theorem adds_visit (level table : Nat) : Adds memory before (before.visit level table) [] :=
  adds_of_eq rfl rfl rfl fun h => ⟨h.incomplete, h.readable, h.aliases⟩

theorem adds_decode : Adds memory before before.decode [] :=
  adds_of_eq rfl rfl rfl fun h => ⟨h.incomplete, h.readable, h.aliases⟩

theorem adds_skipMalformed : Adds memory before before.skipMalformed [] :=
  adds_of_eq rfl rfl rfl fun h => ⟨h.incomplete, h.readable, h.aliases⟩

theorem adds_push (leaf : Leaf) : Adds memory before (before.push leaf) [leaf] where
  leaves := rfl
  faithful := fun h => ⟨h.entries, h.unreadable⟩
  whole := fun h => ⟨h.incomplete, h.readable, h.aliases⟩

theorem not_whole_stop (why : Incomplete) : ¬ (before.stop why).Whole := by
  intro h
  cases h.incomplete

theorem not_whole_skipAlias : ¬ before.skipAlias.Whole := by
  intro h
  have := h.aliases
  unfold skipAlias at this
  simp at this

theorem adds_stop (why : Incomplete) : Adds memory before (before.stop why) [] :=
  adds_of_eq rfl rfl rfl fun h => absurd h (not_whole_stop why)

theorem adds_skipAlias : Adds memory before before.skipAlias [] :=
  adds_of_eq rfl rfl rfl fun h => absurd h not_whole_skipAlias

theorem table_spec (source : Source) (budgets : Budgets) {state : Descent} {gpa : Nat}
    (hgpa : PageAligned gpa) (hfaithful : state.Faithful source.memory) :
    Adds source.memory state (state.table source budgets gpa).1 [] ∧
      match (state.table source budgets gpa).2 with
      | none => ¬ (state.table source budgets gpa).1.Whole
      | some entries => entries = tableEntries source.memory gpa := by
  unfold table
  cases hcache : state.cache gpa with
  | some cached =>
    refine ⟨adds_refl, ?_⟩
    cases cached with
    | none =>
      intro hwhole
      have := hfaithful.unreadable gpa hcache
      have := hwhole.readable
      simp only at this
      omega
    | some entries => exact hfaithful.entries gpa entries hcache
  | none =>
    simp only
    split
    · exact ⟨adds_stop _, not_whole_stop _⟩
    · cases hread : source.read gpa pageSize with
      | ok bytes =>
        have hwords := words_page hgpa hread
        refine ⟨⟨by simp, ?_, fun h => ⟨h.incomplete, h.readable, h.aliases⟩⟩, hwords⟩
        intro h
        refine ⟨?_, ?_⟩
        · intro other entries hother
          simp only at hother
          by_cases heq : other = gpa
          · subst heq
            rw [Function.update_self] at hother
            simp only [Option.some.injEq] at hother
            rw [← hother, hwords]
          · rw [Function.update_of_ne heq] at hother
            exact h.entries other entries hother
        · intro other hother
          simp only at hother
          by_cases heq : other = gpa
          · subst heq
            rw [Function.update_self] at hother
            simp at hother
          · rw [Function.update_of_ne heq] at hother
            exact h.unreadable other hother
      | error failure =>
        have hnot : ∀ after : Descent, after.stats.unreadableTables =
            state.stats.unreadableTables + 1 → ¬ after.Whole := by
          intro after hcount hwhole
          have := hwhole.readable
          omega
        refine ⟨⟨by simp, ?_, fun h => absurd h (hnot _ rfl)⟩, hnot _ rfl⟩
        intro h
        refine ⟨?_, fun _ _ => Nat.succ_pos _⟩
        intro other entries hother
        simp only at hother
        by_cases heq : other = gpa
        · subst heq
          rw [Function.update_self] at hother
          simp at hother
        · rw [Function.update_of_ne heq] at hother
          exact h.entries other entries hother

end

end Descent

/-! ### What the descent enumerates -/

def Leaf.low (leaf : Leaf) : Span := ⟨leaf.va % 2 ^ 48, leaf.gpa, leaf.size⟩

/-- A leaf of whole pages in one half of the address space, at the canonical form of its
address. -/
structure Leaf.Proper (leaf : Leaf) : Prop where
  canonical : leaf.va = SecureKernel.canonical (leaf.va % 2 ^ 48)
  half : leaf.va % 2 ^ 48 < 2 ^ 47 → leaf.va % 2 ^ 48 + leaf.size ≤ 2 ^ 47
  positive : 0 < leaf.size
  regular : leaf.low.Regular pageSize (2 ^ 64)

/-- The tables a walk from `root` can come to, with the levels from each one down. -/
inductive Reached (memory : Nat → UInt8) (root : Nat) : (levels table : Nat) → Prop
  | root : Reached memory root 4 (page root)
  | next {below table index next : Nat} : Reached memory root (below + 1) table → index < 512 →
    follow (entryAt memory table index) below = .next next → Reached memory root below next

def NoSelfMap (memory : Nat → UInt8) (root : Nat) : Prop :=
  ∀ below table index, Reached memory root (below + 1) table → index < 512 →
    follow (entryAt memory table index) below ≠ .next table

/-- The descent through one part of the tree, from `before` to `after`: it adds leaves
of the interval that agree with the walk, and all of them if nothing was left out. -/
structure Enumerates (memory : Nat → UInt8) (before after : Descent)
    (walks : Nat → Option Nat) (low high : Nat) (unmapped : Prop) (found : List Leaf) :
    Prop where
  adds : Descent.Adds memory before after found
  proper : ∀ leaf ∈ found, leaf.Proper
  maps : Span.Maps walks low high (found.map Leaf.low)
  exhausts : after.Whole → unmapped → Span.Exhausts walks low high (found.map Leaf.low)

section
variable {memory : Nat → UInt8} {before middle after : Descent} {walks : Nat → Option Nat}
variable {low between high : Nat} {unmapped : Prop} {found later : List Leaf}

theorem Enumerates.trans (h : Enumerates memory before middle walks low between unmapped found)
    (hlater : Enumerates memory middle after walks between high unmapped later)
    (hlow : low ≤ between) (hhigh : between ≤ high) :
    Enumerates memory before after walks low high unmapped (found ++ later) where
  adds := h.adds.trans hlater.adds
  proper := by
    intro leaf hleaf
    rcases List.mem_append.mp hleaf with hmem | hmem
    · exact h.proper leaf hmem
    · exact hlater.proper leaf hmem
  maps := by
    rw [List.map_append]
    exact h.maps.append hlater.maps hlow hhigh
  exhausts := by
    intro hwhole hunmapped
    rw [List.map_append]
    exact (h.exhausts (hlater.adds.whole hwhole) hunmapped).append
      (hlater.exhausts hwhole hunmapped)

/-- A part of the tree that adds no leaf, because the walk maps nothing there or because
the descent is no longer whole. -/
theorem enumerates_nil (hadds : Descent.Adds memory before after [])
    (h : after.Whole → unmapped → ∀ address, low ≤ address → address < high →
      walks address = none) :
    Enumerates memory before after walks low high unmapped [] where
  adds := hadds
  proper := nofun
  maps := Span.maps_nil
  exhausts := fun hwhole hunmapped => Span.exhausts_of_none (h hwhole hunmapped)

theorem Enumerates.extend (h : Enumerates memory before after walks low between unmapped found)
    (hnot : ¬ after.Whole) (hlow : low ≤ between) (hhigh : between ≤ high) :
    Enumerates memory before after walks low high unmapped found := by
  rw [← List.append_nil found]
  apply h.trans _ hlow hhigh
  exact enumerates_nil Descent.adds_refl fun hwhole => absurd hwhole hnot

theorem Enumerates.congr {others : Nat → Option Nat} {unmapped' : Prop}
    (h : Enumerates memory before after walks low high unmapped found)
    (hsame : ∀ address, low ≤ address → address < high → others address = walks address)
    (hunmapped : unmapped' → unmapped) :
    Enumerates memory before after others low high unmapped' found where
  adds := h.adds
  proper := h.proper
  maps := h.maps.congr hsame
  exhausts := fun hwhole h' => (h.exhausts hwhole (hunmapped h')).congr hsame

end

theorem canonical_mod {va : Nat} (h : va < 2 ^ 48) : canonical va % 2 ^ 48 = va := by
  rw [canonical_eq h]
  split <;> omega

theorem pageSize_dvd_reach (levels : Nat) : pageSize ∣ reach levels :=
  Nat.pow_dvd_pow 2 (by omega : 12 ≤ 12 + 9 * levels)

section
variable {memory : Nat → UInt8} {root below table va : Nat} (budgets : Budgets)

theorem pageAligned_next {entry next : Nat} (h : follow entry below = .next next) :
    PageAligned next := by
  unfold follow at h
  split at h
  · cases h
  split at h
  · cases h
  split at h
  · obtain rfl := Followed.next.inj h
    exact pageAligned_field entry
  split at h
  · cases h
  · cases h

theorem add_reach_le {start : Nat} (hbelow : below ≤ 2) (hstart : reach below ∣ start)
    (h : start < 2 ^ 47) : start + reach below ≤ 2 ^ 47 := by
  have hhalf : reach below ∣ 2 ^ 47 := Nat.pow_dvd_pow 2 (by omega)
  obtain ⟨quotient, rfl⟩ := hstart
  obtain ⟨total, htotal⟩ := hhalf
  rw [htotal] at h ⊢
  rw [← Nat.mul_succ]
  exact Nat.mul_le_mul_left _ (Nat.lt_of_mul_lt_mul_left h)

theorem child_eq (hbelow : below ≤ 3) (hva : reach (below + 1) ∣ va) {index : Nat}
    (hindex : index < 512) :
    va ||| index <<< (39 - 9 * (3 - below)) = va + index * reach below := by
  rw [show 39 - 9 * (3 - below) = 12 + 9 * below by omega]
  unfold reach at hva ⊢
  apply Bits.or_shiftLeft (by omega) hva
  rw [show 12 + 9 * (below + 1) - (12 + 9 * below) = 9 by omega]
  exact hindex

theorem enumerates_leaf {state : Descent} {unmapped : Prop} {index : Nat} {decoded : Decoded}
    (hbelow : below ≤ 3) (hva : reach (below + 1) ∣ va) (hroom : va + reach (below + 1) ≤ 2 ^ 48)
    (hindex : index < 512)
    (hdecoded : decodeEntry (entryAt memory table index) (3 - below) = some decoded)
    (hkind : decoded.kind = .leaf)
    (hfollow : follow (entryAt memory table index) below = .frame decoded.address) :
    Enumerates memory state
      (state.push ⟨canonical (va + index * reach below), decoded.address, decoded.size⟩)
      (pageWalk memory (below + 1) table) (va + index * reach below)
      (va + (index + 1) * reach below) unmapped
      [⟨canonical (va + index * reach below), decoded.address, decoded.size⟩] := by
  obtain ⟨hsize, haddress, hlevel⟩ := size_decodeEntry hbelow hdecoded hkind
  replace hsize : decoded.size = reach below := hsize
  have hnext : va + (index + 1) * reach below = va + index * reach below + reach below := by ring
  have hlast : (index + 1) * reach below ≤ reach (below + 1) := by
    rw [reach_succ]
    exact Nat.mul_le_mul_right _ hindex
  have hpos := reach_pos below
  have hunder : reach below ∣ va := Nat.dvd_trans (reach_dvd below) hva
  have hlt : va + index * reach below < 2 ^ 48 := by
    rw [Nat.add_mul, Nat.one_mul] at hlast
    omega
  have hlow : Leaf.low ⟨canonical (va + index * reach below), decoded.address, decoded.size⟩ =
      ⟨va + index * reach below, decoded.address, reach below⟩ := by
    unfold Leaf.low
    rw [canonical_mod hlt, hsize]
  refine ⟨Descent.adds_push _, ?_, ?_, ?_⟩
  · intro leaf hleaf
    obtain rfl := List.mem_singleton.mp hleaf
    refine ⟨by rw [canonical_mod hlt], ?_, by simp only [hsize]; exact hpos, ?_⟩
    · simp only [canonical_mod hlt, hsize]
      exact add_reach_le hlevel (Nat.dvd_add hunder (Nat.dvd_mul_left _ _))
    rw [hlow]
    refine ⟨?_, ?_, pageSize_dvd_reach below, ?_⟩
    · apply Nat.dvd_add
      · exact Nat.dvd_trans (pageSize_dvd_reach (below + 1)) hva
      · exact Nat.dvd_mul_left_of_dvd (pageSize_dvd_reach below) index
    · simp only [haddress]
      exact Nat.dvd_trans (pageSize_dvd_reach below) (Bits.dvd_field _ _ _)
    · simp only [haddress]
      have hframe := Bits.field_lt (by omega : 12 + 9 * below ≤ 52) (entryAt memory table index)
      have hreach : reach below ≤ 2 ^ 30 := Nat.pow_le_pow_right (by decide) (by omega)
      omega
  · rw [List.map_singleton, hlow]
    refine Span.maps_singleton (Nat.le_refl _) (Nat.le_of_eq hnext.symm) ?_
    intro distance hdistance
    simp only at hdistance ⊢
    rw [pageWalk_entry memory table hva hindex _ (by omega) (by omega), hfollow]
    simp only [Nat.add_sub_cancel_left]
  · intro _ _ address hfrom hto _
    refine ⟨_, List.mem_singleton_self _, ?_⟩
    rw [hlow]
    exact ⟨hfrom, by simp only; omega⟩

def Descends (memory : Nat → UInt8) (root levels : Nat)
    (descend : Descent → Nat → Nat → Descent) : Prop :=
  ∀ state table va, state.Faithful memory → PageAligned table → reach levels ∣ va →
    va + reach levels ≤ 2 ^ 48 → ∃ found, Enumerates memory state (descend state table va)
      (pageWalk memory levels table) va (va + reach levels)
      (Reached memory root levels table ∧ NoSelfMap memory root) found

theorem expand_enumerates {descend : Descent → Nat → Nat → Descent}
    (hdescend : Descends memory root below descend) (hbelow : below ≤ 3)
    (htable : PageAligned table) (hva : reach (below + 1) ∣ va)
    (hroom : va + reach (below + 1) ≤ 2 ^ 48) {count index : Nat} {state : Descent}
    (hcount : index + count = 512) (hfaithful : state.Faithful memory) :
    ∃ found, Enumerates memory state
      (Descent.expand budgets descend table (3 - below) va
        ((List.range' index count).map (entryAt memory table)) index state)
      (pageWalk memory (below + 1) table) (va + index * reach below) (va + reach (below + 1))
      (Reached memory root (below + 1) table ∧ NoSelfMap memory root) found := by
  induction count generalizing index state with
  | zero =>
    refine ⟨[], enumerates_nil Descent.adds_refl ?_⟩
    intro _ _ address hlow hhigh
    obtain rfl : index = 512 := by omega
    rw [reach_succ] at hhigh
    omega
  | succ count ih =>
    have hindex : index < 512 := by omega
    have hstep : va + index * reach below ≤ va + (index + 1) * reach below := by
      rw [Nat.add_mul]
      omega
    have hlast : va + (index + 1) * reach below ≤ va + reach (below + 1) := by
      rw [reach_succ]
      exact Nat.add_le_add_left (Nat.mul_le_mul_right _ hindex) va
    -- The entry's own interval first, then the induction hypothesis for the rest.
    have hgo : ∀ (next : Descent) (here : List Leaf),
        Enumerates memory state next (pageWalk memory (below + 1) table)
          (va + index * reach below) (va + (index + 1) * reach below)
          (Reached memory root (below + 1) table ∧ NoSelfMap memory root) here →
        ∃ found, Enumerates memory state
          (Descent.expand budgets descend table (3 - below) va
            ((List.range' (index + 1) count).map (entryAt memory table)) (index + 1) next)
          (pageWalk memory (below + 1) table) (va + index * reach below) (va + reach (below + 1))
          (Reached memory root (below + 1) table ∧ NoSelfMap memory root) found := by
      intro next here hhere
      obtain ⟨rest, hrest⟩ := ih (by omega : index + 1 + count = 512)
        (hhere.adds.faithful hfaithful)
      exact ⟨here ++ rest, hhere.trans hrest hstep hlast⟩
    have hwalk := pageWalk_entry memory table hva hindex
    rw [List.range'_succ, List.map_cons]
    unfold Descent.expand
    have hfollow := followed_decodeEntry hbelow (entryAt memory table index)
    cases hdecoded : decodeEntry (entryAt memory table index) (3 - below) with
    | none =>
      rw [hdecoded] at hfollow
      apply hgo state []
      apply enumerates_nil Descent.adds_refl
      intro _ _ address hlow hhigh
      rw [hwalk address hlow hhigh, ← hfollow]
      rfl
    | some decoded =>
      rw [hdecoded] at hfollow
      unfold Decoded.followed at hfollow
      simp only at hfollow ⊢
      split
      · next hmalformed =>
        rw [if_pos hmalformed] at hfollow
        apply hgo _ []
        apply enumerates_nil Descent.adds_skipMalformed
        intro _ _ address hlow hhigh
        rw [hwalk address hlow hhigh, ← hfollow]
      · next hmalformed =>
        rw [if_neg hmalformed] at hfollow
        rw [child_eq hbelow hva hindex]
        cases hkind : decoded.kind with
        | leaf =>
          rw [hkind] at hfollow
          simp only
          split
          · refine ⟨[], enumerates_nil (Descent.adds_stop _) ?_⟩
            exact fun hwhole => absurd hwhole (Descent.not_whole_stop _)
          · exact hgo _ _ (enumerates_leaf hbelow hva hroom hindex hdecoded hkind hfollow.symm)
        | table =>
          rw [hkind] at hfollow
          simp only
          split
          · next hself =>
            apply hgo state []
            apply enumerates_nil Descent.adds_refl
            rintro _ ⟨hreached, hno⟩
            rw [htable.page_eq] at hself
            rw [hself] at hfollow
            exact absurd hfollow.symm (hno below table index hreached hindex)
          · have hwalks : ∀ address, va + index * reach below ≤ address →
                address < va + (index + 1) * reach below →
                pageWalk memory (below + 1) table address =
                  pageWalk memory below decoded.address address := by
              intro address hlow hhigh
              rw [hwalk address hlow hhigh, ← hfollow]
            have hnext : va + (index + 1) * reach below =
                va + index * reach below + reach below := by ring
            obtain ⟨here, hhere⟩ := hdescend state decoded.address (va + index * reach below)
              hfaithful (pageAligned_next hfollow.symm)
              (Nat.dvd_add (Nat.dvd_trans (reach_dvd below) hva) (Nat.dvd_mul_left _ _)) (by omega)
            rw [← hnext] at hhere
            have hreached : Reached memory root (below + 1) table ∧ NoSelfMap memory root →
                Reached memory root below decoded.address ∧ NoSelfMap memory root :=
              fun h => ⟨.next h.1 hindex hfollow.symm, h.2⟩
            replace hhere := hhere.congr hwalks hreached
            split
            · next hincomplete =>
              refine ⟨here, hhere.extend ?_ hstep hlast⟩
              intro hwhole
              rw [hwhole.incomplete] at hincomplete
              cases hincomplete
            · exact hgo _ here hhere

theorem descend_enumerates (source : Source) {levels : Nat} (hlevels : levels ≤ 4) :
    Descends source.memory root levels (Descent.descend source budgets levels) := by
  induction levels with
  | zero =>
    intro state table va _ _ _ _
    exact ⟨[], enumerates_nil Descent.adds_refl fun _ _ _ _ _ => rfl⟩
  | succ below ih =>
    intro state table va hfaithful htable hva hroom
    unfold Descent.descend
    simp only
    split
    · next hincomplete =>
      refine ⟨[], enumerates_nil Descent.adds_refl ?_⟩
      intro hwhole
      rw [hwhole.incomplete] at hincomplete
      cases hincomplete
    split
    · refine ⟨[], enumerates_nil Descent.adds_skipAlias ?_⟩
      exact fun hwhole => absurd hwhole Descent.not_whole_skipAlias
    have hvisit : Descent.Adds source.memory state (state.visit (3 - below) table) [] :=
      Descent.adds_visit (3 - below) table
    have hread := Descent.table_spec source budgets htable (hvisit.faithful hfaithful)
    have hadds := hvisit.trans hread.1
    split
    · next hentries =>
      rw [hentries] at hread
      exact ⟨[], enumerates_nil hadds fun hwhole => absurd hwhole hread.2⟩
    · next entries hentries =>
      rw [hentries] at hread
      have hdecode := hadds.trans Descent.adds_decode
      obtain ⟨found, hfound⟩ := expand_enumerates budgets (ih (by omega)) (by omega) htable hva
        hroom (Nat.zero_add 512) (hdecode.faithful hfaithful)
      rw [Nat.zero_mul, Nat.add_zero] at hfound
      rw [hread.2]
      exact ⟨found, hdecode.trans hfound.adds, hfound.proper, hfound.maps, hfound.exhausts⟩

end

end WindbgMcp.SecureKernel
