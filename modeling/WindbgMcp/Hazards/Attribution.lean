import Mathlib.Data.Nat.Count
import WindbgMcp.Hazards.Scan
import WindbgMcp.Library.LastWrite

/-! Which call sites the scan attributes to a sink.  What is watched of a register is what
its last write in the fall-through run left there, so the count of a sink is the number of
indirect transfers through one of its slots. -/
namespace WindbgMcp.Hazards
open Library
open Ioctl (Instruction Register MemoryOperand Operand asU64)

/-! ### The last write of a register -/

/-- `destination` is the register of the first operand, loaded from the memory of the
second. -/
def Loads (instruction : Instruction) (register : String) (memory : MemoryOperand) : Prop :=
  ∃ destination : Register, instruction.operand 0 = some (.register destination) ∧
    destination.full = register ∧ instruction.operand 1 = some (.memory memory)

def AddressBehind (run : List Instruction) (register : String) (address : Nat) : Prop :=
  ∃ before lea memory,
    LastWrite (fun instruction => instruction.writesRegister register = true) run before lea ∧
      lea.effect = .loadAddress ∧ Loads lea register memory ∧ memory.address = some address

/-- The register was last written with what was loaded, unindexed, at a displacement from
such an address. -/
def SlotBehind (run : List Instruction) (register : String) (slot : Nat) : Prop :=
  ∃ before load memory,
    LastWrite (fun instruction => instruction.writesRegister register = true) run before load ∧
      load.effect = .move ∧ Loads load register memory ∧ memory.index = none ∧
      ∃ base address, memory.base = some base ∧ AddressBehind before base.full address ∧
        slot = asU64 (address + memory.displacement)

section
variable {formed : Formed} {instruction : Instruction} {register : String}

theorem forms_eq_some {held : Held} :
    formed.forms instruction = some (register, held) ↔
      instruction.writesRegister register = true ∧ ∃ memory, Loads instruction register memory ∧
        ((instruction.effect = .loadAddress ∧
            ∃ address, memory.address = some address ∧ held = .address address) ∨
          (instruction.effect = .move ∧ memory.index = none ∧ ∃ base address,
            memory.base = some base ∧ formed.address base.full = some address ∧
              held = .slot (asU64 (address + memory.displacement)))) := by
  unfold Formed.forms Loads
  constructor
  · intro h
    split at h
    · rename_i destination memory hfirst hsecond
      split at h
      · cases h
      · rename_i hwrites
        rw [not_not] at hwrites
        split at h
        · rename_i heffect
          obtain ⟨address, haddress, hheld⟩ := Option.map_eq_some_iff.mp h
          cases hheld
          exact ⟨hwrites, memory, ⟨destination, hfirst, rfl, hsecond⟩,
            Or.inl ⟨heffect, address, haddress, rfl⟩⟩
        · rename_i heffect
          split at h
          · rename_i hindex
            simp only [Option.bind_eq_bind, Option.bind_eq_some_iff] at h
            obtain ⟨base, hbase, address, haddress, hheld⟩ := h
            cases hheld
            exact ⟨hwrites, memory, ⟨destination, hfirst, rfl, hsecond⟩,
              Or.inr ⟨heffect, Option.isNone_iff_eq_none.mp hindex, base, address, hbase,
                haddress, rfl⟩⟩
          · cases h
        · cases h
    · cases h
  · rintro ⟨hwrites, memory, ⟨destination, hfirst, rfl, hsecond⟩, hheld⟩
    rw [hfirst, hsecond]
    simp only [hwrites, not_true_eq_false, if_false]
    rcases hheld with ⟨heffect, address, haddress, rfl⟩ |
      ⟨heffect, hindex, base, address, hbase, haddress, rfl⟩
    · simp [heffect, haddress]
    · simp [heffect, hindex, hbase, haddress]

/-- After an instruction a register holds an address where it was given one, or held one
and was not written. -/
theorem apply_address {address : Nat} :
    (formed.apply instruction).address register = some address ↔
      (instruction.writesRegister register = true ∧
          formed.forms instruction = some (register, .address address)) ∨
        (¬ instruction.writesRegister register = true ∧
          formed.address register = some address) := by
  unfold Formed.apply
  cases hforms : formed.forms instruction with
  | none =>
    by_cases hwrites : instruction.writesRegister register = true <;> simp [hwrites]
  | some pair =>
    obtain ⟨destination, held⟩ := pair
    have hdestination := (forms_eq_some.mp hforms).1
    cases held with
    | address found =>
      by_cases hsame : register = destination
      · subst hsame
        simp [hdestination]
      · by_cases hwrites : instruction.writesRegister register = true <;>
          simp [hwrites, hsame, Ne.symm hsame]
    | slot found =>
      by_cases hwrites : instruction.writesRegister register = true <;> simp [hwrites]

theorem apply_loadedFrom {slot : Nat} :
    (formed.apply instruction).loadedFrom register = some slot ↔
      (instruction.writesRegister register = true ∧
          formed.forms instruction = some (register, .slot slot)) ∨
        (¬ instruction.writesRegister register = true ∧
          formed.loadedFrom register = some slot) := by
  unfold Formed.apply
  cases hforms : formed.forms instruction with
  | none =>
    by_cases hwrites : instruction.writesRegister register = true <;> simp [hwrites]
  | some pair =>
    obtain ⟨destination, held⟩ := pair
    have hdestination := (forms_eq_some.mp hforms).1
    cases held with
    | address found =>
      by_cases hwrites : instruction.writesRegister register = true <;> simp [hwrites]
    | slot found =>
      by_cases hsame : register = destination
      · subst hsame
        simp [hdestination]
      · by_cases hwrites : instruction.writesRegister register = true <;>
          simp [hwrites, hsame, Ne.symm hsame]

end

def known (run : List Instruction) : Formed := run.foldl Formed.apply {}

theorem known_concat (run : List Instruction) (last : Instruction) :
    known (run ++ [last]) = (known run).apply last := by
  unfold known
  rw [List.foldl_concat]

theorem known_address_iff {run : List Instruction} {register : String} {address : Nat} :
    (known run).address register = some address ↔ AddressBehind run register address := by
  unfold AddressBehind
  induction run using List.reverseRecOn with
  | nil => simp [known, lastWrite_nil]
  | append_singleton run last ih =>
    rw [known_concat, apply_address, ih]
    simp only [lastWrite_concat]
    constructor
    · rintro (⟨hwrites, hforms⟩ | ⟨hwrites, before, lea, memory, hlast, hlea⟩)
      · obtain ⟨_, memory, hloads, hheld⟩ := forms_eq_some.mp hforms
        rcases hheld with ⟨heffect, found, hfound, hsame⟩ | ⟨_, _, _, _, _, _, hsame⟩
        · cases hsame
          exact ⟨run, last, memory, Or.inl ⟨hwrites, rfl, rfl⟩, heffect, hloads, hfound⟩
        · cases hsame
      · exact ⟨before, lea, memory, Or.inr ⟨hwrites, hlast⟩, hlea⟩
    · rintro ⟨before, lea, memory, ⟨hwrites, rfl, rfl⟩ | ⟨hwrites, hlast⟩, heffect, hloads, hfound⟩
      · left
        refine ⟨hwrites, forms_eq_some.mpr ⟨hwrites, memory, hloads, ?_⟩⟩
        exact Or.inl ⟨heffect, address, hfound, rfl⟩
      · exact Or.inr ⟨hwrites, before, lea, memory, hlast, heffect, hloads, hfound⟩

theorem known_loadedFrom_iff {run : List Instruction} {register : String} {slot : Nat} :
    (known run).loadedFrom register = some slot ↔ SlotBehind run register slot := by
  unfold SlotBehind
  induction run using List.reverseRecOn with
  | nil => simp [known, lastWrite_nil]
  | append_singleton run last ih =>
    rw [known_concat, apply_loadedFrom, ih]
    simp only [lastWrite_concat]
    constructor
    · rintro (⟨hwrites, hforms⟩ | ⟨hwrites, before, load, memory, hlast, hload⟩)
      · obtain ⟨_, memory, hloads, hheld⟩ := forms_eq_some.mp hforms
        rcases hheld with ⟨_, _, _, hsame⟩ |
          ⟨heffect, hindex, base, address, hbase, haddress, hsame⟩
        · cases hsame
        · cases hsame
          exact ⟨run, last, memory, Or.inl ⟨hwrites, rfl, rfl⟩, heffect, hloads, hindex, base,
            address, hbase, known_address_iff.mp haddress, rfl⟩
      · exact ⟨before, load, memory, Or.inr ⟨hwrites, hlast⟩, hload⟩
    · rintro ⟨before, load, memory, ⟨hwrites, rfl, rfl⟩ | ⟨hwrites, hlast⟩, heffect, hloads, hindex,
        base, address, hbase, haddress, rfl⟩
      · left
        refine ⟨hwrites, forms_eq_some.mpr ⟨hwrites, memory, hloads, ?_⟩⟩
        exact Or.inr ⟨heffect, hindex, base, address, hbase, known_address_iff.mpr haddress, rfl⟩
      · exact Or.inr ⟨hwrites, before, load, memory, hlast, heffect, hloads, hindex, base,
          address, hbase, haddress, rfl⟩

/-! ### The run behind a step -/

def runBehind (steps : List Step) : List Instruction :=
  steps.foldl (fun run step =>
    match step with
    | .breaks => []
    | .at instruction =>
      if instruction.flow = .fallthrough then run ++ [instruction] else []) []

def Step.Ends : Step → Prop
  | .breaks => True
  | .at instruction => instruction.flow ≠ .fallthrough

theorem runBehind_concat (steps : List Step) (last : Step) :
    runBehind (steps ++ [last]) =
      match last with
      | .breaks => []
      | .at instruction =>
        if instruction.flow = .fallthrough then runBehind steps ++ [instruction] else [] := by
  unfold runBehind
  rw [List.foldl_concat]

abbrev Transfer := List Step → Instruction → Nat → Prop

/-- The slot an indirect transfer goes through: the first address its memory operands
resolve to or, where none resolves, the slot the register it names was loaded from. -/
def Reaches : Transfer := fun behind instruction slot =>
  indirect instruction.flow = true ∧
    (instruction.operands.findSome? resolvedAddress = some slot ∨
      instruction.operands.findSome? resolvedAddress = none ∧ ∃ register,
        instruction.operand 0 = some (.register register) ∧
          SlotBehind (runBehind behind) register.full slot)

def Names : Transfer := fun behind instruction slot =>
  indirect instruction.flow = true ∧
    ((∃ memory : MemoryOperand, .memory memory ∈ instruction.operands ∧
        memory.address = some slot) ∨
      ∃ register, instruction.operand 0 = some (.register register) ∧
        SlotBehind (runBehind behind) register.full slot)

def Alone (instruction : Instruction) : Prop :=
  indirect instruction.flow = true → ∀ operand ∈ instruction.operands,
    resolvedAddress operand ≠ none → instruction.operands = [operand]

theorem names_iff_reaches {behind : List Step} {instruction : Instruction} {slot : Nat}
    (h : Alone instruction) :
    Names behind instruction slot ↔ Reaches behind instruction slot := by
  unfold Names Reaches
  apply and_congr_right
  intro hindirect
  have h := h hindirect
  constructor
  · rintro (⟨memory, hmem, haddress⟩ | ⟨register, hregister, hslot⟩)
    · left
      have hone := h _ hmem (by simp [resolvedAddress, haddress])
      simp [hone, resolvedAddress, haddress]
    · right
      refine ⟨?_, register, hregister, hslot⟩
      rw [List.findSome?_eq_none_iff]
      intro operand hmem
      by_contra hresolved
      -- The register would be that one operand, and a register resolves to nothing.
      have hone := h operand hmem hresolved
      unfold Instruction.operand at hregister
      rw [hone, List.getElem?_cons_zero] at hregister
      cases hregister
      exact hresolved rfl
  · rintro (hresolved | ⟨_, register, hregister, hslot⟩)
    · left
      obtain ⟨operand, hmem, haddress⟩ := List.exists_of_findSome?_eq_some hresolved
      unfold resolvedAddress at haddress
      split at haddress
      · rename_i memory
        exact ⟨memory, hmem, haddress⟩
      · cases haddress
    · exact Or.inr ⟨register, hregister, hslot⟩

theorem reaches_iff {behind : List Step} {instruction : Instruction} {slot : Nat} :
    (calledSlot instruction).or ((known (runBehind behind)).slotOf instruction) = some slot ↔
      Reaches behind instruction slot := by
  unfold calledSlot Formed.slotOf Reaches
  by_cases hflow : indirect instruction.flow = true
  · rw [if_pos hflow, if_pos hflow]
    simp only [hflow, true_and]
    cases hresolved : instruction.operands.findSome? resolvedAddress with
    | some address => simp
    | none =>
      simp only [Option.none_or, reduceCtorEq, true_and, false_or]
      constructor
      · intro h
        split at h
        · rename_i register hregister
          exact ⟨register, hregister, known_loadedFrom_iff.mp h⟩
        · cases h
      · rintro ⟨register, hregister, hslot⟩
        rw [hregister]
        exact known_loadedFrom_iff.mpr hslot
  · rw [if_neg hflow, if_neg hflow]
    simp [hflow]

/-! ### Sinks -/

namespace Sink
variable (sink : Sink) (address : Nat) (listed : Bool)

@[simp] theorem addSite_library : (sink.addSite address listed).library = sink.library := rfl

@[simp] theorem addSite_name : (sink.addSite address listed).name = sink.name := rfl

@[simp] theorem addSite_callSiteCount :
    (sink.addSite address listed).callSiteCount = sink.callSiteCount + 1 := rfl

end Sink

def SinkSlot (imports : List Import) (library name : String) (slot : Nat) : Prop :=
  ∃ entry ∈ imports, entry.library = library ∧ entry.name = .named name ∧ entry.slot = slot

open Classical in
noncomputable def siteCount (through : Transfer) (imports : List Import) (library name : String)
    (steps : List Step) : Nat :=
  Nat.count (fun k => ∃ instruction slot, steps[k]? = some (.at instruction) ∧
    through (steps.take k) instruction slot ∧ SinkSlot imports library name slot) steps.length

section
variable (through : Transfer) (imports : List Import) (library name : String)

theorem siteCount_nil : siteCount through imports library name [] = 0 := by
  unfold siteCount
  rw [List.length_nil, Nat.count_zero]

open Classical in
theorem siteCount_concat (steps : List Step) (last : Step) :
    siteCount through imports library name (steps ++ [last]) =
      siteCount through imports library name steps +
        if ∃ instruction slot, last = .at instruction ∧ through steps instruction slot ∧
          SinkSlot imports library name slot then 1 else 0 := by
  unfold siteCount
  rw [List.length_append, List.length_singleton, Nat.count_succ]
  congr 1
  · -- The steps before the last one see the same run behind them.
    rw [Nat.count_eq_card_filter_range, Nat.count_eq_card_filter_range]
    congr 1
    apply Finset.filter_congr
    intro k hk
    have hk := Finset.mem_range.mp hk
    rw [List.getElem?_append_left hk, List.take_append_of_le_length hk.le]
  · simp only [List.getElem?_concat_length, Option.some.injEq, List.take_left']

theorem siteCount_congr {through other : Transfer} {steps : List Step}
    (h : ∀ behind instruction slot, .at instruction ∈ steps →
      (through behind instruction slot ↔ other behind instruction slot)) :
    siteCount through imports library name steps =
      siteCount other imports library name steps := by
  induction steps using List.reverseRecOn with
  | nil => rw [siteCount_nil, siteCount_nil]
  | append_singleton steps last ih =>
    rw [siteCount_concat, siteCount_concat, ih]
    · congr 2
      apply propext
      apply exists_congr
      intro instruction
      apply exists_congr
      intro slot
      apply and_congr_right
      rintro rfl
      rw [h steps instruction slot (List.mem_append_right steps List.mem_cons_self)]
    · intro behind instruction slot hmem
      exact h behind instruction slot (List.mem_append_left _ hmem)

end

def Attributed (table : ImportTable) (imports : List Import) (sink : Sink) (slot : Nat) : Bool :=
  (table.importsBySlot imports slot).any fun entry =>
    sink.key = (entry.library, table.text entry.name)

section
variable {table : ImportTable} {imports : List Import}

theorem attributed_iff (hslots : (imports.map (·.slot)).Nodup) {sink : Sink}
    (hlisted : sinkKind sink.name ≠ none) {slot : Nat} :
    Attributed table imports sink slot = true ↔
      SinkSlot imports sink.library sink.name slot := by
  unfold Attributed SinkSlot
  rw [Option.any_eq_true]
  constructor
  · rintro ⟨entry, hentry, hkey⟩
    obtain ⟨hmem, hslot⟩ := (table.slot_iff imports hslots slot entry).mp hentry
    obtain ⟨hlibrary, hname⟩ := Prod.mk.inj (of_decide_eq_true hkey)
    refine ⟨entry, hmem, hlibrary.symm, ?_, hslot⟩
    cases hentryName : entry.name with
    | named name => rw [hname, hentryName, table.text_named]
    | ordinal number =>
      rw [hname, hentryName] at hlisted
      exact absurd (table.ordinal_unlisted number) hlisted
  · rintro ⟨entry, hmem, hlibrary, hname, hslot⟩
    refine ⟨entry, (table.slot_iff imports hslots slot entry).mpr ⟨hmem, hslot⟩, ?_⟩
    rw [hname, hlibrary, table.text_named]
    exact decide_eq_true rfl

theorem countSite_sinks (state : Scanning) (address slot : Nat) :
    ∃ listed, (countSite table imports state address slot).sinks =
      state.sinks.map fun sink =>
        if Attributed table imports sink slot = true then sink.addSite address listed
        else sink := by
  unfold countSite Attributed
  cases hentry : table.importsBySlot imports slot with
  | none => exact ⟨false, by simp⟩
  | some entry =>
    dsimp only
    split
    · rename_i hnone
      refine ⟨false, ?_⟩
      rw [List.find?_eq_none] at hnone
      rw [List.map_congr_left (g := id), List.map_id]
      intro sink hsink
      simpa using fun hkey => absurd hkey (by simpa using hnone sink hsink)
    · rename_i found _
      refine ⟨found.callSites.length < maxCallSitesPerSink &&
        state.listedCallSites < maxCallSitesTotal, ?_⟩
      simp only [Option.any_some, decide_eq_true_eq]

/-- What is known after a stream of steps: of the registers, what the run behind them left
there, and of each sink its calls so far. -/
structure Counted (imports : List Import) (steps : List Step) (state : Scanning) : Prop where
  formed : state.formed = known (runBehind steps)
  listed : ∀ sink ∈ state.sinks, sinkKind sink.name ≠ none
  count : ∀ sink ∈ state.sinks,
    sink.callSiteCount = siteCount Reaches imports sink.library sink.name steps

theorem formed_scanStep {steps : List Step} {state : Scanning}
    (h : state.formed = known (runBehind steps)) (step : Step) :
    (scanStep table imports state step).formed = known (runBehind (steps ++ [step])) := by
  rw [runBehind_concat]
  cases step with
  | breaks => rfl
  | «at» instruction =>
    simp only [scanStep]
    split
    · rw [known_concat, h]
    · rfl

/-- No import has its slot at zero, which is what a transfer through no slot is looked up
with. -/
theorem sinkSlot_getD_iff (hzero : ∀ entry ∈ imports, entry.slot ≠ 0) {library name : String}
    {slot : Option Nat} :
    SinkSlot imports library name (slot.getD 0) ↔
      ∃ address, slot = some address ∧ SinkSlot imports library name address := by
  cases slot with
  | none =>
    constructor
    · rintro ⟨entry, hmem, _, _, hslot⟩
      exact absurd hslot (hzero entry hmem)
    · rintro ⟨_, hnone, _⟩
      cases hnone
  | some address => simp

/-- A step adds to a sink's count where the step is a transfer through one of its slots. -/
theorem Counted.step (hzero : ∀ entry ∈ imports, entry.slot ≠ 0)
    (hslots : (imports.map (·.slot)).Nodup) {steps : List Step} {state : Scanning}
    (h : Counted imports steps state) (step : Step) :
    Counted imports (steps ++ [step]) (scanStep table imports state step) := by
  have hformed := @formed_scanStep table imports _ _ h.formed step
  cases step with
  | breaks =>
    refine ⟨hformed, h.listed, ?_⟩
    intro sink hsink
    rw [siteCount_concat, if_neg (by simp), Nat.add_zero]
    exact h.count sink hsink
  | «at» instruction =>
    obtain ⟨found, hsinks⟩ := @countSite_sinks table imports state instruction.address
      (((calledSlot instruction).or (state.formed.slotOf instruction)).getD 0)
    have hcounts : ∀ sink ∈ state.sinks,
        Attributed table imports sink
          (((calledSlot instruction).or (state.formed.slotOf instruction)).getD 0) = true ↔
        ∃ other slot, Step.at instruction = .at other ∧ Reaches steps other slot ∧
          SinkSlot imports sink.library sink.name slot := by
      intro sink hsink
      rw [attributed_iff hslots (h.listed sink hsink), sinkSlot_getD_iff hzero, h.formed]
      simp only [reaches_iff, Step.at.injEq, exists_and_left, exists_eq_left']
    have hevery : ∀ sink ∈ (scanStep table imports state (.at instruction)).sinks,
        sinkKind sink.name ≠ none ∧ sink.callSiteCount =
          siteCount Reaches imports sink.library sink.name (steps ++ [.at instruction]) := by
      intro sink hsink
      simp only [scanStep, hsinks] at hsink
      obtain ⟨before, hbefore, rfl⟩ := List.mem_map.mp hsink
      split
      · rename_i hattributed
        simp only [Sink.addSite_library, Sink.addSite_name, Sink.addSite_callSiteCount]
        rw [siteCount_concat, if_pos ((hcounts before hbefore).mp hattributed),
          h.count before hbefore]
        exact ⟨h.listed before hbefore, rfl⟩
      · rename_i hattributed
        rw [siteCount_concat,
          if_neg (fun hsite => hattributed ((hcounts before hbefore).mpr hsite))]
        exact ⟨h.listed before hbefore, h.count before hbefore⟩
    exact ⟨hformed, fun sink hsink => (hevery sink hsink).1,
      fun sink hsink => (hevery sink hsink).2⟩

theorem Counted.run (hzero : ∀ entry ∈ imports, entry.slot ≠ 0)
    (hslots : (imports.map (·.slot)).Nodup) {state : Scanning} (h : Counted imports [] state)
    (steps : List Step) :
    Counted imports steps (steps.foldl (scanStep table imports) state) := by
  induction steps using List.reverseRecOn with
  | nil => exact h
  | append_singleton steps last ih =>
    rw [List.foldl_concat]
    exact ih.step hzero hslots last

def Fresh (sinks : List Sink) : Prop :=
  ∀ sink ∈ sinks, sinkKind sink.name ≠ none ∧ sink.callSiteCount = 0

theorem Fresh.fileSink {sinks : List Sink} (h : Fresh sinks) (entry : Import) {name : String}
    {kind : SinkKind} (hkind : sinkKind name = some kind) :
    Fresh (fileSink entry name kind sinks) := by
  have hnew : sinkKind name ≠ none := by
    rw [hkind]
    exact Option.some_ne_none kind
  induction sinks with
  | nil => exact List.forall_mem_singleton.mpr ⟨hnew, rfl⟩
  | cons sink sinks ih =>
    obtain ⟨hsink, hsinks⟩ := List.forall_mem_cons.mp h
    unfold Hazards.fileSink
    split
    · exact List.forall_mem_cons.mpr ⟨hsink, hsinks⟩
    · split
      · exact List.forall_mem_cons.mpr ⟨⟨hnew, rfl⟩, h⟩
      · exact List.forall_mem_cons.mpr ⟨hsink, ih hsinks⟩

theorem fresh_sortImport (table : ImportTable) {sorted : Sorted} (h : Fresh sorted.sinks)
    (entry : Import) : Fresh (sortImport table sorted entry).sinks := by
  unfold sortImport
  split
  · rename_i name kind hname hkind
    rw [hname, table.text_named] at hkind
    exact h.fileSink entry hkind
  · exact h
  · exact h

theorem fresh_sorted (table : ImportTable) (imports : List Import) (sorted : Sorted)
    (h : Fresh sorted.sinks) : Fresh (imports.foldl (sortImport table) sorted).sinks := by
  induction imports generalizing sorted with
  | nil => exact h
  | cons entry imports ih => exact ih _ (fresh_sortImport table h entry)

/-- The calls a sink is given are the indirect transfers through its slots: through the first
address the operands resolve to or, where none does, through the register they name.  Where an
operand that resolves stands alone, those are all the transfers that name one of its slots. -/
theorem callSiteCount_eq (table : ImportTable) {imports : List Import}
    (hzero : ∀ entry ∈ imports, entry.slot ≠ 0) (hslots : (imports.map (·.slot)).Nodup)
    (steps : List Step) :
    (∀ sink ∈ (scan table imports steps).sinks,
      sink.callSiteCount = siteCount Reaches imports sink.library sink.name steps) ∧
    ((∀ instruction, .at instruction ∈ steps → Alone instruction) →
      ∀ sink ∈ (scan table imports steps).sinks,
        sink.callSiteCount = siteCount Names imports sink.library sink.name steps) := by
  have hfresh := fresh_sorted table imports {} (List.forall_mem_nil _)
  have hstart : Counted imports [] ⟨{}, (imports.foldl (sortImport table) {}).sinks, 0⟩ := by
    refine ⟨rfl, fun sink hsink => (hfresh sink hsink).1, ?_⟩
    intro sink hsink
    rw [siteCount_nil]
    exact (hfresh sink hsink).2
  have hcount := (@Counted.run table _ hzero hslots _ hstart steps).count
  refine ⟨hcount, ?_⟩
  intro halone sink hsink
  rw [hcount sink hsink]
  apply siteCount_congr
  intro behind instruction slot hmem
  exact (names_iff_reaches (halone instruction hmem)).symm

end

section Runs

theorem sinkKind_ordinal (number : Nat) : sinkKind ("#" ++ toString number) = none := by
  have hnone : ∀ sink ∈ sinkList, sink.1.toList.head? ≠ some '#' := by decide +kernel
  unfold sinkKind
  rw [Option.map_eq_none_iff, List.find?_eq_none]
  intro sink hsink hname
  apply hnone sink hsink
  rw [of_decide_eq_true hname, String.toList_append]
  rfl

theorem find?_slot_iff {imports : List Import} (hslots : (imports.map (·.slot)).Nodup)
    (slot : Nat) (entry : Import) :
    imports.find? (fun other => other.slot = slot) = some entry ↔
      entry ∈ imports ∧ entry.slot = slot := by
  constructor
  · intro hfound
    have hslot := List.find?_some hfound
    exact ⟨List.mem_of_find?_eq_some hfound, of_decide_eq_true hslot⟩
  · rintro ⟨hmem, rfl⟩
    have hsome : (imports.find? fun other => other.slot = entry.slot).isSome = true :=
      List.find?_isSome.mpr ⟨entry, hmem, decide_eq_true rfl⟩
    obtain ⟨found, hfound⟩ := Option.isSome_iff_exists.mp hsome
    have hslot := List.find?_some hfound
    rw [List.inj_on_of_nodup_map hslots (List.mem_of_find?_eq_some hfound) hmem
      (of_decide_eq_true hslot)] at hfound
    exact hfound

/-- A reader that writes an ordinal as a number sign and its digits. -/
def exampleTable : ImportTable where
  text
    | .named name => name
    | .ordinal number => "#" ++ toString number
  importsBySlot imports slot := imports.find? fun entry => entry.slot = slot
  text_named _ := rfl
  ordinal_unlisted := sinkKind_ordinal
  slot_iff _ hslots slot entry := find?_slot_iff hslots slot entry

def memcpyImport : Import := ⟨"ntoskrnl.exe", .named "memcpy", 0x140003008⟩

def x8 : Register := ⟨"x8", "x8", 8⟩

/-- `adrp x8, 140003000h`, `ldr x8, [x8, #8]`, `blr x8`. -/
def formedCall : List Step :=
  [.at { address := 0x140001000, mnemonic := "adrp", effect := .loadAddress, writes := [x8],
         operands := [.register x8, .memory { address := some 0x140003000 }] },
    .at { address := 0x140001004, mnemonic := "ldr", effect := .move, writes := [x8],
          operands := [.register x8, .memory { base := some x8, displacement := 8 }] },
    .at { address := 0x140001008, mnemonic := "blr", flow := .call none,
          operands := [.register x8] }]

theorem formedCall_alone (instruction : Instruction) (h : .at instruction ∈ formedCall) :
    Alone instruction := by
  unfold Alone
  simp only [formedCall, List.mem_cons, Step.at.injEq, List.not_mem_nil, or_false] at h
  rcases h with rfl | rfl | rfl <;> decide

theorem callSiteCount_eq_formedCall :
    siteCount Reaches [memcpyImport] "ntoskrnl.exe" "memcpy" formedCall = 1 ∧
      siteCount Names [memcpyImport] "ntoskrnl.exe" "memcpy" formedCall = 1 := by
  have hscan : (scan exampleTable [memcpyImport] formedCall).sinks =
      [⟨"ntoskrnl.exe", "memcpy", .bufferCopy, [0x140003008], 1, [0x140001008], 1⟩] := by
    decide +kernel
  obtain ⟨hreached, hnamed⟩ := @callSiteCount_eq exampleTable [memcpyImport] (by decide)
    (by decide) formedCall
  have hnamed := hnamed formedCall_alone
  rw [hscan] at hreached hnamed
  exact ⟨(hreached _ List.mem_cons_self).symm, (hnamed _ List.mem_cons_self).symm⟩

/-- A call that names two addresses, the second the slot of `memcpy`. -/
def twoAddresses : List Step :=
  [.at { address := 0x140001000, mnemonic := "call", flow := .call none,
         operands := [.memory { address := some 0x140005000 },
           .memory { address := some 0x140003008 }] }]

/-- Only the first address is looked at. -/
theorem second_address_ignored :
    ¬ ∀ (table : ImportTable) (imports : List Import), (∀ entry ∈ imports, entry.slot ≠ 0) →
      (imports.map (·.slot)).Nodup → ∀ steps, ∀ sink ∈ (scan table imports steps).sinks,
        sink.callSiteCount = siteCount Names imports sink.library sink.name steps := by
  intro h
  have hscan : (scan exampleTable [memcpyImport] twoAddresses).sinks =
      [⟨"ntoskrnl.exe", "memcpy", .bufferCopy, [0x140003008], 1, [], 0⟩] := by
    decide +kernel
  have hcount := h exampleTable [memcpyImport] (by decide) (by decide) twoAddresses
  rw [hscan] at hcount
  have hzero := hcount _ List.mem_cons_self
  unfold twoAddresses at hzero
  rw [← List.nil_append [Step.at _], siteCount_concat, if_pos] at hzero
  · exact absurd hzero.symm (Nat.succ_ne_zero _)
  · refine ⟨_, 0x140003008, rfl, ⟨rfl, Or.inl ⟨_, List.mem_cons_of_mem _ List.mem_cons_self, rfl⟩⟩,
      memcpyImport, List.mem_singleton.mpr rfl, rfl, rfl, rfl⟩

end Runs

end WindbgMcp.Hazards
