import WindbgMcp.Ioctl.Arithmetic
import WindbgMcp.Ioctl.Labels

/-! What the walk makes of an equality test on a register derived from the control code: a case
for the code that sets the flag, where the value compared and the offset carried add up to a
`u32`; and nothing at all where they do not. -/
namespace WindbgMcp.Ioctl
open WindbgMcp.Library

namespace Facts
variable {facts : Facts}

theorem get_remove_of_ne {full other : String} (h : other ≠ full) :
    (facts.remove full).get other = facts.get other := by
  unfold get remove
  induction facts.registers with
  | nil => rfl
  | cons entry entries ih =>
    rw [List.filter_cons, List.lookup_cons]
    split
    · rw [List.lookup_cons, ih]
    · next hkept =>
      rw [bne_iff_ne, not_not] at hkept
      rw [ih, beq_eq_false_iff_ne.mpr (hkept ▸ h)]

theorem get_remove (full : String) : (facts.remove full).get full = none := by
  unfold get remove
  rw [List.lookup_eq_none_iff]
  intro entry hentry
  rw [bne_iff_ne]
  exact fun heq => bne_iff_ne.mp (List.mem_filter.mp hentry).2 heq.symm

@[simp] theorem get_set (full : String) (value : Option Value) :
    (facts.set full value).get full = value := by
  cases value with
  | none => exact get_remove full
  | some value =>
    change List.lookup full ((full, value) :: _) = _
    rw [List.lookup_cons, beq_self_eq_true]

theorem get_set_of_ne {full other : String} (h : other ≠ full) (value : Option Value) :
    (facts.set full value).get other = facts.get other := by
  cases value with
  | none => exact get_remove_of_ne h
  | some value =>
    change List.lookup other ((full, value) :: _) = _
    rw [List.lookup_cons, beq_eq_false_iff_ne.mpr h]
    exact get_remove_of_ne h

theorem nodup_set (h : (facts.registers.map Prod.fst).Nodup) (full : String)
    (value : Option Value) : ((facts.set full value).registers.map Prod.fst).Nodup := by
  have hremoved : ((facts.remove full).registers.map Prod.fst).Nodup :=
    (List.filter_sublist.map Prod.fst).nodup h
  cases value with
  | none => exact hremoved
  | some value =>
    refine List.nodup_cons.mpr ⟨?_, hremoved⟩
    rintro hmem
    obtain ⟨entry, hentry, heq⟩ := List.mem_map.mp hmem
    exact bne_iff_ne.mp (List.mem_filter.mp hentry).2 heq

theorem get_congr {other : Facts} (h : other.registers = facts.registers) (full : String) :
    other.get full = facts.get full := by
  unfold get
  rw [h]

theorem mem_carriers (h : (facts.registers.map Prod.fst).Nodup) {full : String} :
    full ∈ facts.carriers ↔ (facts.get full).any Value.isCode = true := by
  unfold carriers
  rw [List.mem_map]
  constructor
  · rintro ⟨entry, hentry, rfl⟩
    rw [List.mem_filter] at hentry
    have hget : facts.get entry.1 = some entry.2 := (lookup_eq_some_iff_mem h).mpr hentry.1
    rw [hget]
    exact hentry.2
  · intro hcode
    cases hget : facts.get full with
    | none =>
      rw [hget] at hcode
      cases hcode
    | some value =>
      rw [hget] at hcode
      exact ⟨(full, value),
        List.mem_filter.mpr ⟨(lookup_eq_some_iff_mem h).mp hget, hcode⟩, rfl⟩

end Facts

def Holding.Kept (held : Option Value) : Holding → Prop
  | .code offset true => ∃ proved, held = some (.code offset 0 proved)
  | .code _ false => held = none
  | .literal value => held = some (.literal value)
  | .other => True

def Question.Left (question : Question) (next : Option Compared) : Prop :=
  if question.followed = true then
    ∃ was, next = some was ∧ was.code = some (question.value % 2 ^ 64).toNat ∧
      was.site = question.site
  else next = none

def Ledger.Keeps (ledger : Ledger) (facts : Facts) : Prop :=
  ∀ full, (ledger.held full).Kept (facts.get full)

theorem keeps_entered (facts : Facts) : (Ledger.entered facts).Keeps facts := by
  intro full
  unfold Ledger.entered
  dsimp only
  split
  · next offset proved h => exact ⟨proved, h⟩
  · next value h => exact h
  · trivial

section Steps
variable {spelled : String → String} {ledger : Ledger} {facts : Facts} {layout : Layout}

theorem Ledger.Keeps.amount (h : ledger.Keeps facts) {amount : Amount} {value : Nat}
    (hvalue : ledger.amount amount = some value) :
    scalarOf facts (some (amount.operand spelled)) = some value := by
  cases amount with
  | immediate written => exact hvalue
  | register full =>
    have hheld := h full
    unfold Ledger.amount at hvalue
    dsimp only at hvalue
    split at hvalue
    · next literal hliteral =>
      obtain rfl := Option.some.inj hvalue
      rw [hliteral] at hheld
      have hget : facts.get full = some (.literal literal) := hheld
      simp [Amount.operand, scalarOf, slice, hget]
    · cases hvalue

theorem asU64_add (value : Nat) (offset : Int) :
    (value + asU64 offset) % 2 ^ 64 = ((value + offset) % 2 ^ 64).toNat := by
  unfold asU64
  omega

theorem Ledger.Keeps.compares (h : ledger.Keeps facts) (site : Nat) {left : String}
    {amount : Amount} {question : Question}
    (hquestion : (ledger.step site (.compare left amount)).question = some question) :
    question.Left (compare facts
      [.register (slice spelled left), amount.operand spelled] layout site).1 := by
  have hheld := h left
  dsimp only [Ledger.step] at hquestion
  split at hquestion
  · next offset followed value hholding hvalue =>
    obtain rfl := Option.some.inj hquestion
    have hscalar := @Ledger.Keeps.amount spelled _ _ h _ _ hvalue
    rw [hholding] at hheld
    unfold compare Question.Left
    cases followed with
    | true =>
      obtain ⟨proved, hget⟩ := hheld
      have hsum := asU64_add value offset
      norm_num at hsum
      simp [hscalar, slice, hget, hsum]
    | false =>
      have hget : facts.get left = none := hheld
      simp [slice, hget]
  · cases hquestion

/-- What a `sub` or an `add` leaves in its destination, and for a branch behind it. -/
structure Ledger.Wrote (after : Ledger) (facts : Facts) (destination : String)
    (wrote : Facts × Bool × Option Compared) : Prop where
  value : ∃ value, wrote.1 = facts.set destination value ∧
    (after.held destination).Kept value
  flag : ∀ question, after.question = some question → question.Left wrote.2.2
  lost : ∀ question, after.question = some question → wrote.2.2 = none →
    facts.get destination = none ∧ wrote.1 = facts.set destination none

theorem Ledger.Wrote.of_move (h : ledger.Keeps facts) {site : Nat} {destination : String}
    {amount : Amount} {value : Nat} (hvalue : ledger.amount amount = some value)
    {stepped : Int → Nat → Int} {wrote : Facts × Bool × Option Compared}
    (hany : ∃ value, wrote.1 = facts.set destination value)
    (hcode : ∀ offset proved, facts.get destination = some (.code offset 0 proved) →
      wrote.1 = facts.set destination (some (.code (stepped offset value % 2 ^ 32) 0 proved)) ∧
        ∃ was, wrote.2.2 = some was ∧ was.code = some (asU64 (stepped offset value % 2 ^ 32)) ∧
          was.site = site)
    (hlost : facts.get destination = none →
      wrote.1 = facts.set destination none ∧ wrote.2.2 = none) :
    (ledger.move site destination amount stepped).Wrote facts destination wrote := by
  have hheld := h destination
  unfold Ledger.move
  rw [hvalue]
  cases hholding : ledger.held destination with
  | code offset followed =>
    rw [hholding] at hheld
    cases followed with
    | true =>
      obtain ⟨proved, hget⟩ := hheld
      obtain ⟨hfacts, was, hwas, hcase, hsite⟩ := hcode offset proved hget
      refine ⟨⟨_, hfacts, ?_⟩, ?_, ?_⟩
      · simp only [Ledger.put, Function.update_self]
        exact ⟨proved, rfl⟩
      · rintro _ ⟨⟩
        exact ⟨was, hwas, hcase, hsite⟩
      · intro _ _ hnext
        rw [hwas] at hnext
        cases hnext
    | false =>
      refine ⟨⟨none, (hlost hheld).1, ?_⟩, ?_, fun _ _ _ => ⟨hheld, (hlost hheld).1⟩⟩
      · simp only [Ledger.put, Function.update_self]
        rfl
      · rintro _ ⟨⟩
        exact (hlost hheld).2
  | literal | other =>
    obtain ⟨value, hfacts⟩ := hany
    refine ⟨⟨value, hfacts, ?_⟩, nofun, nofun⟩
    simp only [Ledger.put, Function.update_self]
    trivial

theorem arithmeticAmount_two (first last : Operand) :
    arithmeticAmount [first, last] = some last := rfl

theorem arithmeticSource_two (held : Option Value) (first last : Operand) :
    arithmeticSource facts [first, last] held = held := rfl

theorem Ledger.Keeps.arithmetic (h : ledger.Keeps facts) (forward : Bool) {destination : String}
    {amount : Amount} {instruction : Instruction} (hplain : (ledger.amount amount).isSome)
    (hoperands : instruction.operands =
      [.register (slice spelled destination), amount.operand spelled])
    (heffect : instruction.effect = if forward then .subtract else .add) :
    (ledger.move instruction.address destination amount fun offset amount =>
      if forward then offset + amount else offset - amount).Wrote facts destination
        (written facts instruction layout (slice spelled destination)) := by
  obtain ⟨value, hvalue⟩ := Option.isSome_iff_exists.mp hplain
  have hscalar := @Ledger.Keeps.amount spelled _ _ h _ _ hvalue
  apply Wrote.of_move h hvalue
  · cases forward with
    | true =>
      simp only [written, heffect, hoperands, slice, if_true]
      split
      · exact ⟨some _, rfl⟩
      · exact ⟨none, rfl⟩
    | false =>
      simp only [written, heffect, hoperands, slice, if_false, Bool.false_eq_true]
      split
      · exact ⟨some _, rfl⟩
      · dsimp only
        split
        · by_cases hwide : fieldWidth ≥ layout.pointer
          · exact ⟨some _, if_pos hwide⟩
          · exact ⟨none, if_neg hwide⟩
        · exact ⟨none, rfl⟩
  · intro offset proved hget
    cases forward with
    | true =>
      simp [written, heffect, hoperands, arithmeticSource_two, arithmeticAmount_two, slice,
        hget, hscalar, stepped]
    | false =>
      simp [written, heffect, hoperands, arithmeticSource_two, arithmeticAmount_two, slice,
        hget, hscalar, stepped, ← Int.sub_eq_add_neg]
  · intro hget
    cases forward with
    | true => simp [written, heffect, hoperands, arithmeticSource_two, slice, hget]
    | false => simp [written, heffect, hoperands, arithmeticSource_two, slice, hget]

theorem Holding.Kept.fits {holding : Holding} {held : Option Value} (h : holding.Kept held) :
    holding.Kept (held.filter fun value => decide (fieldWidth ≥ value.carriedBy layout)) := by
  cases holding with
  | code offset followed =>
    cases followed with
    | true =>
      obtain ⟨proved, rfl⟩ := h
      exact ⟨proved, rfl⟩
    | false =>
      obtain rfl : held = none := h
      rfl
  | literal value =>
    obtain rfl : held = some (.literal value) := h
    rfl
  | other => trivial

def rebased (displacement : Int) : Option Value → Option Value
  | some (.code offset shift proved) =>
    if Ledger.fits (offset - displacement) then some (.code (offset - displacement) shift proved)
    else none
  | _ => none

theorem sourceValue_immediate {value : Nat} (h : value < 2 ^ 32) :
    sourceValue facts .move (some (.immediate value)) layout = (some (.literal value), false) := by
  dsimp only [sourceValue]
  rw [if_pos ⟨rfl, h⟩]

theorem sourceValue_register (register : Register) :
    sourceValue facts .move (some (.register register)) layout =
      ((facts.get register.full).filter fun value =>
        decide (register.width ≥ value.carriedBy layout), false) := by
  dsimp only [sourceValue]
  rw [if_pos (Or.inl rfl)]

theorem sourceValue_address (memory : MemoryOperand) :
    sourceValue facts .loadAddress (some (.memory memory)) layout =
      (memory.address.map .address, false) := by
  dsimp only [sourceValue]
  rw [if_pos rfl]

theorem written_lea {instruction : Instruction} {destination base : String} {displacement : Int}
    (hoperands : (Line.lea destination base displacement).Spells spelled instruction.operands)
    (heffect : instruction.effect = .loadAddress) :
    written facts instruction layout (slice spelled destination) =
      (facts.set destination (rebased displacement (facts.get base)), false, none) := by
  obtain ⟨memory, hoperands, hbase, hindex, rfl, haddress⟩ := hoperands
  obtain ⟨register, hregister, rfl⟩ := Option.map_eq_some_iff.mp hbase
  have hsource : sourceValue facts .loadAddress (some (.memory memory)) layout = (none, false) := by
    rw [sourceValue_address, haddress]
    rfl
  unfold written
  simp only [heffect, hoperands, Instruction.operand, List.getElem?_cons_succ,
    List.getElem?_cons_zero, hindex, hregister, Option.bind_some, hsource, slice]
  unfold rebased Ledger.fits
  simp only [Option.isSome_none, Bool.false_eq_true, if_false]
  cases facts.get register.full with
  | none => rfl
  | some value =>
    cases value with
    | code offset shift proved =>
      by_cases hfits : -2 ^ 63 ≤ offset - memory.displacement ∧
          offset - memory.displacement < 2 ^ 63
      · simp only [hfits, and_self, decide_true, if_true]
        rfl
      · simp only [hfits, decide_false, if_false, Bool.false_eq_true]
        rfl
    | irp | stackLocation | inputLength | outputLength | address | literal => rfl

theorem Ledger.Keeps.moves (h : ledger.Keeps facts) {line : Line} {destination : String}
    (site : Nat) {instruction : Instruction} (hwrites : line.writes = [destination])
    (hflags : line.writesFlags = false) (hoperands : line.Spells spelled instruction.operands)
    (heffect : instruction.effect = line.effect) :
    ∃ value, written facts instruction layout (slice spelled destination) =
      (facts.set destination value, false, none) ∧
        ((ledger.step site line).held destination).Kept value := by
  cases line with
  | moveImmediate target value =>
    obtain rfl := List.singleton_inj.mp hwrites
    have hoperands : instruction.operands =
      [.register (slice spelled target), .immediate value.toNat] := hoperands
    have heffect : instruction.effect = .move := heffect
    have hsource := @sourceValue_immediate facts layout value.toNat value.isLt
    refine ⟨some (.literal value.toNat), ?_, ?_⟩
    · simp [written, heffect, hoperands, Instruction.operand, hsource, slice, Option.filter,
        Value.carriedBy]
    · simp [Ledger.step, Ledger.put, Holding.Kept]
  | move target source =>
    obtain rfl := List.singleton_inj.mp hwrites
    have hoperands : instruction.operands =
      [.register (slice spelled target), .register (slice spelled source)] := hoperands
    have heffect : instruction.effect = .move := heffect
    have hsource := @sourceValue_register facts layout (slice spelled source)
    refine ⟨((facts.get source).filter fun value =>
        decide (fieldWidth ≥ value.carriedBy layout)).filter fun value =>
          decide (fieldWidth ≥ value.carriedBy layout), ?_, ?_⟩
    · simp only [written, heffect, hoperands, Instruction.operand, List.getElem?_cons_succ,
        List.getElem?_cons_zero, hsource]
      rfl
    · simp only [Ledger.step, Ledger.put, Function.update_self]
      exact (h source).fits.fits
  | lea target base displacement =>
    obtain rfl := List.singleton_inj.mp hwrites
    refine ⟨_, written_lea hoperands heffect, ?_⟩
    have hheld := h base
    simp only [Ledger.step, Ledger.put, Function.update_self]
    cases hholding : ledger.held base with
    | code offset followed =>
      rw [hholding] at hheld
      cases followed with
      | true =>
        obtain ⟨proved, hget⟩ := hheld
        rw [hget]
        dsimp only [rebased, Bool.true_and]
        cases hfits : fits (offset - displacement) with
        | true => exact ⟨proved, rfl⟩
        | false => rfl
      | false =>
        have hget : facts.get base = none := hheld
        rw [hget]
        rfl
    | literal | other => trivial
  | subtract | add | compare => cases hflags

/-- An instruction with a 32-bit destination: what it leaves is what `written` leaves of the same
registers, and a loss is noted only where that is no compare. -/
structure Updated.WroteBy (updated : Updated) (entry before : Facts) (instruction : Instruction)
    (layout : Layout) (register : Register) : Prop where
  registers : before.registers = entry.registers
  facts : updated.facts = (written before instruction layout register).1
  next : updated.next = (written before instruction layout register).2.2
  chained : updated.chained = none
  lost : updated.lost = if (written before instruction layout register).2.2.isSome then none
    else (noteLoss (written before instruction layout register).1 entry.carriers instruction none
      layout).1

theorem clearWritten_destination {instruction : Instruction} {destination : String}
    (hwrites : instruction.writes.map Register.full = [destination]) (facts : Facts) :
    clearWritten instruction (some destination) facts = facts := by
  obtain ⟨register, hregister, rfl⟩ := List.map_eq_singleton_iff.mp hwrites
  unfold clearWritten
  rw [hregister, List.foldl_cons, List.foldl_nil, if_pos rfl]

theorem update_wroteBy (facts : Facts) {instruction : Instruction} {destination : String}
    {last : Operand}
    (hoperands : instruction.operands = [.register (slice spelled destination), last])
    (hwrites : instruction.writes.map Register.full = [destination])
    (hmnemonic : instruction.isPlain = true) (hflow : isCall instruction.flow = false)
    (hcompare : instruction.effect ≠ .compare) (htest : instruction.effect ≠ .test)
    (hpush : instruction.effect ≠ .push) :
    ∃ before, (update facts instruction layout none).WroteBy facts before instruction layout
      (slice spelled destination) := by
  have hhead : instruction.operand 0 = some (.register (slice spelled destination)) := by
    rw [Instruction.operand, hoperands]
    rfl
  have hwritten : instruction.writesRegister (slice spelled destination).full = true := by
    obtain ⟨register, hregister, hfull⟩ := List.map_eq_singleton_iff.mp hwrites
    unfold Instruction.writesRegister
    rw [hregister, List.any_cons, hfull]
    exact Bool.true_or _ |>.symm ▸ congrArg (· || _) (beq_self_eq_true destination)
  have hwide : ¬ (slice spelled destination).width < fieldWidth := Nat.lt_irrefl _
  have hfull : ((Operand.register (slice spelled destination) : Operand) |> registerFull) =
      some destination := rfl
  unfold update
  simp only [chainedCompare_of_plain hmnemonic, hcompare, htest, hpush, or_self, if_false, hflow,
    Bool.false_eq_true, hhead, Option.bind_some, hfull, clearWritten_destination hwrites, hwritten,
    Bool.not_true, hwide]
  generalize hwrote : written _ instruction layout (slice spelled destination) = wrote
  obtain ⟨before, hbefore, hregisters⟩ : ∃ before,
      written before instruction layout (slice spelled destination) = wrote ∧
        before.registers = facts.registers := ⟨_, hwrote, by split <;> rfl⟩
  refine ⟨before, ?_⟩
  obtain ⟨wrote, traced, next⟩ := wrote
  cases next with
  | none => constructor <;> simp [hbefore, hregisters]
  | some next => constructor <;> simp [hbefore, hregisters]

/-- What a line leaves of the walk: the registers as the ledger has them, and the compare or the
loss for a branch behind it. -/
structure Ledger.Leaves (after : Ledger) (line : Line) (updated : Updated) : Prop where
  keeps : after.Keeps updated.facts
  nodup : (updated.facts.registers.map Prod.fst).Nodup
  chained : updated.chained = none
  quiet : line.writesFlags = false → updated.lost = none
  flag : line.writesFlags = true → ∀ question, after.question = some question →
    question.Left updated.next ∧ updated.lost = none

theorem Ledger.Keeps.congr (h : ledger.Keeps facts) {other : Facts}
    (hother : other.registers = facts.registers) : ledger.Keeps other := by
  intro full
  rw [Facts.get_congr hother]
  exact h full

theorem Ledger.Keeps.set (h : ledger.Keeps facts) {after : Ledger} {destination : String}
    {value : Option Value} (hvalue : (after.held destination).Kept value)
    (hothers : ∀ full, full ≠ destination → after.held full = ledger.held full) :
    after.Keeps (facts.set destination value) := by
  intro full
  by_cases hfull : full = destination
  · subst hfull
    rw [Facts.get_set]
    exact hvalue
  · rw [Facts.get_set_of_ne hfull, hothers full hfull]
    exact h full

theorem Ledger.Keeps.literal_of_amount (h : ledger.Keeps facts) {amount : Amount} {full : String}
    (hplain : (ledger.amount amount).isSome) (hname : full ∈ amount.names) :
    ∃ value, facts.get full = some (.literal value) := by
  cases amount with
  | immediate => cases hname
  | register other =>
    obtain rfl := List.mem_singleton.mp hname
    have hheld := h full
    unfold Ledger.amount at hplain
    dsimp only at hplain
    split at hplain
    · next value hliteral =>
      rw [hliteral] at hheld
      exact ⟨value, hheld⟩
    · cases hplain

theorem Ledger.Keeps.probe (h : ledger.Keeps facts) {amount : Amount}
    (hplain : (ledger.amount amount).isSome) :
    (sourceValue facts .move (some (amount.operand spelled)) layout).1.any Value.isCode =
      false := by
  cases amount with
  | immediate value =>
    unfold Amount.operand
    dsimp only [sourceValue]
    split <;> rfl
  | register full =>
    obtain ⟨value, hget⟩ := h.literal_of_amount hplain (List.mem_singleton_self full)
    unfold Amount.operand slice
    rw [sourceValue_register, hget]
    rfl

theorem noteLoss_of_quiet {carried : List String} {instruction : Instruction}
    (hgone : ∀ full ∈ carried, (facts.get full).any Value.isCode = true)
    (hreads : ∀ register ∈ instruction.reads, register.full ∉ carried)
    (hprobes : ∀ operand ∈ instruction.operands,
      (sourceValue facts .move (some operand) layout).1.any Value.isCode = false) :
    (noteLoss facts carried instruction none layout).1 = none := by
  have hany : (carried.any fun full => !(facts.get full).any Value.isCode) = false := by
    rw [List.any_eq_false]
    intro full hfull
    rw [hgone full hfull]
    decide
  have hread :
      (instruction.reads.any fun register => decide (register.full ∈ carried)) = false := by
    rw [List.any_eq_false]
    intro register hregister
    rw [decide_eq_true_eq]
    exact hreads register hregister
  unfold noteLoss
  split
  · dsimp only
    generalize hprobed : List.findSome? _ instruction.operands = probed
    cases probed with
    | none =>
      simp only [hany, hread, Bool.or_self, Option.isSome_none, Bool.false_eq_true, if_false]
    | some traced =>
      obtain ⟨operand, hoperand, hfound⟩ := List.exists_of_findSome?_eq_some hprobed
      have hprobe := hprobes operand hoperand
      split at hfound
      · next hsource =>
        rw [hsource] at hprobe
        cases hprobe
      · cases hfound
  · rfl

/-- Where the amount is a constant and the destination holds nothing that is known, no loss is
noted: the walk does not know the register for a code. -/
theorem Ledger.Keeps.noteLoss (h : ledger.Keeps facts)
    (hnodup : (facts.registers.map Prod.fst).Nodup) {instruction : Instruction}
    {destination : String} {amount : Amount} (hplain : (ledger.amount amount).isSome)
    (hoperands : instruction.operands =
      [.register (slice spelled destination), amount.operand spelled])
    (hreads : ∀ register ∈ instruction.reads, register.full ∈ destination :: amount.names)
    (hget : facts.get destination = none) {before : Facts}
    (hbefore : before.registers = facts.registers) :
    (noteLoss (before.set destination none) facts.carriers instruction none layout).1 = none := by
  have hcarried {full : String} (hcode : full ∈ facts.carriers) :
      full ≠ destination ∧ full ∉ amount.names := by
    rw [Facts.mem_carriers hnodup] at hcode
    constructor
    · rintro rfl
      rw [hget] at hcode
      cases hcode
    · intro hname
      obtain ⟨value, hliteral⟩ := h.literal_of_amount hplain hname
      rw [hliteral] at hcode
      cases hcode
  have hafter : (ledger.put destination .other).Keeps (before.set destination none) := by
    apply (h.congr hbefore).set
    · simp only [Ledger.put, Function.update_self]
      trivial
    · exact fun full hfull => Function.update_of_ne hfull _ _
  apply noteLoss_of_quiet
  · intro full hcode
    rw [Facts.get_set_of_ne (hcarried hcode).1, Facts.get_congr hbefore]
    exact (Facts.mem_carriers hnodup).mp hcode
  · intro register hregister hcode
    rcases List.mem_cons.mp (hreads register hregister) with hsame | hname
    · exact (hcarried hcode).1 hsame
    · exact (hcarried hcode).2 hname
  · rw [hoperands]
    intro operand hoperand
    rcases List.mem_cons.mp hoperand with rfl | hlast
    · rw [sourceValue_register]
      change (Option.filter _ ((before.set destination none).get destination)).any _ = false
      rw [Facts.get_set]
      rfl
    · obtain rfl := List.mem_singleton.mp hlast
      apply hafter.probe
      cases amount with
      | immediate => rfl
      | register full =>
        obtain ⟨value, hliteral⟩ := h.literal_of_amount hplain (List.mem_singleton_self full)
        have hother : full ≠ destination := by
          rintro rfl
          rw [hget] at hliteral
          cases hliteral
        have hsame : (ledger.put destination .other).held full = ledger.held full :=
          Function.update_of_ne hother _ _
        unfold Ledger.amount at hplain ⊢
        dsimp only at hplain ⊢
        rw [hsame]
        exact hplain

theorem Ledger.held_step {line : Line} {destination : String} (site : Nat)
    (hwrites : line.writes = [destination]) {full : String} (hfull : full ≠ destination) :
    (ledger.step site line).held full = ledger.held full := by
  cases line with
  | moveImmediate | move | lea =>
    obtain rfl := List.singleton_inj.mp hwrites
    exact Function.update_of_ne hfull _ _
  | subtract | add =>
    obtain rfl := List.singleton_inj.mp hwrites
    dsimp only [Ledger.step, Ledger.move]
    split <;> exact Function.update_of_ne hfull _ _
  | compare => cases hwrites

theorem Ledger.Keeps.update_compare (h : ledger.Keeps facts)
    (hnodup : (facts.registers.map Prod.fst).Nodup) {left : String} {amount : Amount}
    {instruction : Instruction}
    (hoperands : instruction.operands =
      [.register (slice spelled left), amount.operand spelled])
    (heffect : instruction.effect = .compare) :
    (ledger.step instruction.address (.compare left amount)).Leaves (.compare left amount)
      (update facts instruction layout none) := by
  unfold update
  rw [if_pos heffect, hoperands]
  constructor
  case keeps => exact h
  case nodup => exact hnodup
  case chained => rfl
  case quiet => nofun
  case flag =>
    intro _ question hquestion
    refine ⟨?_, rfl⟩
    apply Ledger.Keeps.compares _ _ hquestion
    exact h

theorem Ledger.Keeps.update_moves (h : ledger.Keeps facts)
    (hnodup : (facts.registers.map Prod.fst).Nodup) {line : Line} {destination : String}
    {instruction : Instruction} (hwrites : line.writes = [destination])
    (hflags : line.writesFlags = false) (hspells : line.Spells spelled instruction.operands)
    (heffect : instruction.effect = line.effect)
    (hquiet : instruction.writesFlags = false)
    (hwrote : ∃ before, (update facts instruction layout none).WroteBy facts before instruction
      layout (slice spelled destination)) :
    (ledger.step instruction.address line).Leaves line (update facts instruction layout none) := by
  obtain ⟨before, hwrote⟩ := hwrote
  obtain ⟨value, hvalue, hkept⟩ := @Ledger.Keeps.moves _ _ _ layout (h.congr hwrote.registers) _ _
    instruction.address _ hwrites hflags hspells heffect
  have hfacts := hwrote.facts
  rw [hvalue] at hfacts
  constructor
  case keeps =>
    rw [hfacts]
    exact (h.congr hwrote.registers).set hkept fun full hfull =>
      Ledger.held_step _ hwrites hfull
  case nodup =>
    rw [hfacts]
    exact Facts.nodup_set (hwrote.registers ▸ hnodup) _ _
  case chained => exact hwrote.chained
  case quiet =>
    intro _
    rw [hwrote.lost, noteLoss_of_no_flags hquiet, ite_self]
  case flag =>
    intro hflag
    rw [hflags] at hflag
    cases hflag

theorem Ledger.Keeps.update_arithmetic (h : ledger.Keeps facts)
    (hnodup : (facts.registers.map Prod.fst).Nodup) {line : Line} {destination : String}
    {amount : Amount} {instruction : Instruction} (hwrites : line.writes = [destination])
    (hflags : line.writesFlags = true) (hplain : (ledger.amount amount).isSome)
    (hoperands : instruction.operands =
      [.register (slice spelled destination), amount.operand spelled])
    (hreads : ∀ register ∈ instruction.reads, register.full ∈ destination :: amount.names)
    (hwrote : ∃ before, (update facts instruction layout none).WroteBy facts before instruction
      layout (slice spelled destination))
    (harithmetic : ∀ before : Facts, ledger.Keeps before →
      (ledger.step instruction.address line).Wrote before destination
        (written before instruction layout (slice spelled destination))) :
    (ledger.step instruction.address line).Leaves line (update facts instruction layout none) := by
  obtain ⟨before, hwrote⟩ := hwrote
  have hbefore := h.congr hwrote.registers
  have harithmetic := harithmetic before hbefore
  obtain ⟨value, hvalue, hkept⟩ := harithmetic.value
  constructor
  case keeps =>
    rw [hwrote.facts, hvalue]
    exact hbefore.set hkept fun full hfull => Ledger.held_step _ hwrites hfull
  case nodup =>
    rw [hwrote.facts, hvalue]
    exact Facts.nodup_set (hwrote.registers ▸ hnodup) _ _
  case chained => exact hwrote.chained
  case quiet =>
    intro hquiet
    rw [hflags] at hquiet
    cases hquiet
  case flag =>
    intro _ question hquestion
    refine ⟨hwrote.next ▸ harithmetic.flag question hquestion, ?_⟩
    rw [hwrote.lost]
    split
    · rfl
    · next hnext =>
      obtain ⟨hget, hset⟩ := harithmetic.lost question hquestion (by simpa using hnext)
      rw [Facts.get_congr hwrote.registers] at hget
      rw [hset]
      exact h.noteLoss hnodup hplain hoperands hreads hget hwrote.registers

/-- The walk of a line keeps the registers as the ledger has them, and leaves for a branch what
the flag asks. -/
theorem Ledger.Keeps.update (h : ledger.Keeps facts)
    (hnodup : (facts.registers.map Prod.fst).Nodup) (decoded : Decoded spelled)
    (hplain : ledger.Plain decoded.line) :
    (ledger.step decoded.instruction.address decoded.line).Leaves decoded.line
      (update facts decoded.instruction layout none) := by
  obtain ⟨line, instruction, hoperands, heffect, hwrites, hreads, hflags, hmnemonic, hflow⟩ :=
    decoded
  dsimp only at hoperands heffect hwrites hreads hflags hmnemonic hflow hplain ⊢
  have hordinary : instruction.isPlain = true := by
    unfold Instruction.isPlain
    rw [Bool.and_eq_true, bne_iff_ne, bne_iff_ne]
    exact hmnemonic
  have hwrote {destination : String} {last : Operand}
      (hoperands : instruction.operands = [.register (slice spelled destination), last])
      (hwrites : instruction.writes.map Register.full = [destination])
      (heffects : instruction.effect ≠ .compare ∧ instruction.effect ≠ .test ∧
        instruction.effect ≠ .push) :=
    @update_wroteBy _ layout facts _ _ _ hoperands hwrites hordinary hflow heffects.1 heffects.2.1
      heffects.2.2
  cases line with
  | moveImmediate destination value =>
    apply h.update_moves hnodup rfl rfl hoperands heffect hflags
    exact hwrote hoperands hwrites (heffect ▸ ⟨nofun, nofun, nofun⟩)
  | move destination source =>
    apply h.update_moves hnodup rfl rfl hoperands heffect hflags
    exact hwrote hoperands hwrites (heffect ▸ ⟨nofun, nofun, nofun⟩)
  | lea destination base displacement =>
    apply h.update_moves hnodup rfl rfl hoperands heffect hflags
    obtain ⟨memory, hmemory, -⟩ := hoperands
    exact hwrote hmemory hwrites (heffect ▸ ⟨nofun, nofun, nofun⟩)
  | subtract destination amount =>
    apply h.update_arithmetic hnodup rfl rfl hplain hoperands hreads
    · exact hwrote hoperands hwrites (heffect ▸ ⟨nofun, nofun, nofun⟩)
    · exact fun before hbefore => hbefore.arithmetic true hplain hoperands heffect
  | add destination amount =>
    apply h.update_arithmetic hnodup rfl rfl hplain hoperands hreads
    · exact hwrote hoperands hwrites (heffect ▸ ⟨nofun, nofun, nofun⟩)
    · exact fun before hbefore => hbefore.arithmetic false hplain hoperands heffect
  | compare left amount => exact h.update_compare hnodup hoperands heffect

theorem Ledger.operands_ne {line : Line} {destination other : String} {site : Nat}
    {question : Question} (hflags : line.writesFlags = true)
    (hreads : line.reads = [destination, other])
    (hquestion : (ledger.step site line).question = some question) : destination ≠ other := by
  rintro rfl
  cases line with
  | moveImmediate | move | lea => cases hflags
  | subtract left amount | add left amount | compare left amount =>
    cases amount with
    | immediate => cases hreads
    | register full =>
      obtain ⟨rfl, hfull⟩ := List.cons.inj hreads
      obtain rfl := List.singleton_inj.mp hfull
      dsimp only [Ledger.step, Ledger.move, Ledger.amount] at hquestion
      cases hheld : ledger.held full <;> rw [hheld] at hquestion <;> cases hquestion

theorem decidesZero_of_names {instruction : Instruction} {left right : Register}
    (hoperands : instruction.operands = [.register left, .register right])
    (h : left.name ≠ right.name) : decidesZero facts instruction = none := by
  unfold decidesZero
  rw [hoperands]
  exact if_pos h

theorem decidesZero_of_last {instruction : Instruction} {first last : Operand}
    (hoperands : instruction.operands = [first, last]) (hlast : registerFull last = none) :
    decidesZero facts instruction = none := by
  unfold decidesZero
  rw [hoperands]
  cases last with
  | register => cases hlast
  | immediate | memory | other => rfl

theorem Decoded.undecided (hspelled : Function.Injective spelled) (decoded : Decoded spelled)
    (ledger : Ledger) (site : Nat) (h : decoded.line.writesFlags = false ∨
      ∃ question, (ledger.step site decoded.line).question = some question) :
    decidesZero facts decoded.instruction = none := by
  obtain ⟨line, instruction, hoperands, heffect, hwrites, hreads, hflags, hmnemonic, hflow⟩ :=
    decoded
  dsimp only at hoperands heffect h ⊢
  have hnames {left : String} {amount : Amount}
      (hoperands : instruction.operands =
        [.register (slice spelled left), amount.operand spelled])
      (hflags : line.writesFlags = true) (hreads : line.reads = left :: amount.names) :
      decidesZero facts instruction = none := by
    cases amount with
    | immediate => exact decidesZero_of_last hoperands rfl
    | register full =>
      apply decidesZero_of_names hoperands
      rcases h with hquiet | ⟨question, hquestion⟩
      · rw [hflags] at hquiet
        cases hquiet
      · exact fun hsame => Ledger.operands_ne hflags hreads hquestion (hspelled hsame)
  cases line with
  | moveImmediate => exact decidesZero_of_last hoperands rfl
  | move destination source =>
    unfold decidesZero
    rw [hoperands, heffect]
    exact ite_self none
  | lea =>
    obtain ⟨memory, hmemory, -⟩ := hoperands
    exact decidesZero_of_last hmemory rfl
  | subtract | add | compare => exact hnames hoperands rfl rfl

structure Walking.Asks (state : Walking) (question : Question) : Prop where
  lost : state.lost = none
  forced : state.forced = none
  chain : state.chain = none
  decided : state.decided = none
  compared : ∃ next, state.compared = next.toList ∧ question.Left next

structure Ledger.Follows (ledger : Ledger) (state : Walking) : Prop where
  keeps : ledger.Keeps state.facts
  nodup : (state.facts.registers.map Prod.fst).Nodup
  justLost : state.justLost = none
  flag : ∀ question, ledger.question = some question → state.Asks question

theorem Ledger.question_step {line : Line} (site : Nat) (hflags : line.writesFlags = false) :
    (ledger.step site line).question = ledger.question := by
  cases line with
  | moveImmediate | move | lea => rfl
  | subtract | add | compare => cases hflags

theorem Ledger.Follows.step (hspelled : Function.Injective spelled) {state : Walking}
    (h : ledger.Follows state) (decoded : Decoded spelled) (hplain : ledger.Plain decoded.line) :
    (ledger.step decoded.instruction.address decoded.line).Follows
      (state.step layout decoded.instruction) := by
  have hleaves := @Ledger.Keeps.update _ _ _ layout h.keeps h.nodup decoded hplain
  have hundecided := @Decoded.undecided _ state.facts hspelled decoded ledger
    decoded.instruction.address
  unfold Walking.step
  rw [h.justLost]
  simp only [decoded.flow, Bool.false_eq_true, if_false]
  cases hflags : decoded.line.writesFlags with
  | false =>
    rw [decoded.flags, hflags, hundecided (Or.inl hflags)]
    simp only [Option.isSome_none, Bool.and_false, Bool.or_self, Bool.false_eq_true, if_false]
    constructor
    case keeps => exact hleaves.keeps
    case nodup => exact hleaves.nodup
    case justLost => exact hleaves.quiet hflags
    case flag =>
      intro question hquestion
      rw [Ledger.question_step _ hflags] at hquestion
      have hasks := h.flag question hquestion
      exact ⟨hasks.lost, hasks.forced, hasks.chain, hasks.decided, hasks.compared⟩
  | true =>
    rw [decoded.flags, hflags]
    simp only [Bool.true_or, if_true, hleaves.chained]
    constructor
    case keeps => exact hleaves.keeps
    case nodup => exact hleaves.nodup
    case justLost => rfl
    case flag =>
      intro question hquestion
      obtain ⟨hleft, hlost⟩ := hleaves.flag hflags question hquestion
      exact ⟨hlost, rfl, rfl, hundecided (Or.inr ⟨question, hquestion⟩), _, rfl, hleft⟩

theorem Ledger.Follows.run (hspelled : Function.Injective spelled)
    {body : List (Decoded spelled)} : ∀ {ledger : Ledger} {state : Walking},
      ledger.Follows state → ledger.PlainRun body →
        (ledger.run body).Follows
          ((body.map Decoded.instruction).foldl (Walking.step layout) state) := by
  induction body with
  | nil => exact fun h _ => h
  | cons decoded body ih =>
    intro ledger state h hplain
    exact ih (h.step hspelled decoded hplain.1) hplain.2

theorem follows_enter (entry : DistinctFacts) :
    (Ledger.entered entry.facts).Follows (.enter entry.facts) where
  keeps := keeps_entered entry.facts
  nodup := entry.registers
  justLost := rfl
  flag := nofun

end Steps

/-- A block of the arithmetic, and a `je` or a `jne` behind it whose flag asks about the code. -/
structure EqualityTest (spelled : String → String) (entry : DistinctFacts)
    (instructions : List Instruction) where
  body : List (Decoded spelled)
  last : Instruction
  target : Option Nat
  question : Question
  around : instructions = body.map Decoded.instruction ++ [last]
  plain : (Ledger.entered entry.facts).PlainRun body
  asks : ((Ledger.entered entry.facts).run body).question = some question
  flow : last.flow = .branch target
  condition : last.condition = some .equal ∨ last.condition = some .notEqual
  mnemonic : last.mnemonic ≠ "cbz" ∧ last.mnemonic ≠ "cbnz"

def Found.Pushed (found : Found) : Prop :=
  ∀ map : Map, (pushFound map found).caseCount = map.caseCount + 1 ∧
    ((pushFound map found).capHit = true ∨
      ∃ case : Case, case.code = found.code ∧ (pushFound map found).cases = map.cases ++ [case])

def Run.Publishes (run : Run) (code site : Nat) (lands : Option Nat) : Prop :=
  ∃ found, run.cases = [found] ∧ found.code = code ∧ found.site = site ∧
    lands = some found.lands ∧ found.Pushed

theorem pushed_iff (found : Found) : found.Pushed ↔ found.code < 2 ^ 32 := by
  unfold Found.Pushed pushFound pushCase isUlong
  constructor
  · intro h
    by_contra hlarge
    have hcount := (h { dispatch := 0 }).1
    rw [if_neg (by simpa using hlarge)] at hcount
    cases hcount
  · intro hsmall map
    rw [if_pos (decide_eq_true hsmall)]
    dsimp only
    split
    · exact ⟨rfl, Or.inl rfl⟩
    · exact ⟨rfl, Or.inr ⟨_, rfl, rfl⟩⟩

namespace EqualityTest
variable {spelled : String → String} {entry : DistinctFacts} {instructions : List Instruction}
  (test : EqualityTest spelled entry instructions)

def lands (next : Option Nat) : Option Nat :=
  if test.last.condition = some .equal then test.target else next

theorem readBranch_eq {state : Walking} (h : state.Asks test.question) (next : Option Nat)
    (layout : Layout) :
    (readBranch state test.last test.target next layout).2.1 = [] ∧
      (test.question.followed = false →
        (readBranch state test.last test.target next layout).1 = []) ∧
      (test.question.followed = true →
        ∃ proved, (readBranch state test.last test.target next layout).1 =
          ((test.lands next).map fun lands =>
            ⟨(test.question.value % 2 ^ 64).toNat, lands, test.question.site, proved⟩).toList) := by
  have hfolded : foldedCompare state.facts test.last layout = (none, false) := by
    unfold foldedCompare
    simp only [test.mnemonic.1, test.mnemonic.2, if_false]
  obtain ⟨next', hcompared, hleft⟩ := h.compared
  unfold Question.Left at hleft
  unfold readBranch lands
  simp only [hfolded, h.lost, h.forced, hcompared]
  cases hfollowed : test.question.followed with
  | false =>
    rw [hfollowed] at hleft
    have hnone : next' = none := hleft
    rcases test.condition with hcondition | hcondition <;> simp [hcondition, hnone]
  | true =>
    rw [hfollowed, if_pos rfl] at hleft
    obtain ⟨was, rfl, hcode, hsite⟩ := hleft
    rcases test.condition with hcondition | hcondition
    · refine ⟨by simp [hcondition, hcode], nofun, fun _ => ⟨was.proved, ?_⟩⟩
      simp only [hcondition, Option.toList_some, List.map_cons, List.map_nil, if_true,
        List.filterMap_cons, List.filterMap_nil, hcode, hsite]
      cases test.target <;> rfl
    · refine ⟨by simp [hcondition, hcode], nofun, fun _ => ⟨was.proved, ?_⟩⟩
      simp only [hcondition, Option.toList_some, List.map_cons, List.map_nil, reduceCtorEq,
        Option.some.injEq, if_false, List.filterMap_cons, List.filterMap_nil, hcode, hsite]
      cases next <;> rfl

theorem walkBlock_eq (hspelled : Function.Injective spelled) (next : Option Nat)
    (successors : List Nat) (fallThrough : Option Nat) (blockAt : Nat → Option Nat)
    (layout : Layout) (reader : Option Reader) (inImage : Nat → Bool) :
    ∃ state : Walking, state.Asks test.question ∧
      (walkBlock instructions next successors fallThrough blockAt entry.facts layout reader
        inImage).cases = (readBranch state test.last test.target next layout).1 ∧
      (walkBlock instructions next successors fallThrough blockAt entry.facts layout reader
        inImage).untracked = (readBranch state test.last test.target next layout).2.1 := by
  have hfollows := @Ledger.Follows.run _ layout hspelled _ _ _ (follows_enter entry) test.plain
  have hasks := hfollows.flag test.question test.asks
  obtain ⟨hcases, huntracked, -⟩ := walkBlock_concat (test.body.map Decoded.instruction) test.last
    next successors fallThrough blockAt entry.facts layout reader inImage
  rw [← test.around] at hcases huntracked
  refine ⟨_, hasks, ?_⟩
  generalize (test.body.map Decoded.instruction).foldl (Walking.step layout)
    (.enter entry.facts) = state at *
  have hterminate : terminate state (settledBy state.decided (some test.last))
      (test.body.map Decoded.instruction) test.last entry.facts next layout reader inImage =
        ({ state with
            traced := state.traced || (readBranch state test.last test.target next layout).2.2 },
          { cases := (readBranch state test.last test.target next layout).1
            untracked := (readBranch state test.last test.target next layout).2.1 }) := by
    unfold terminate
    rw [test.flow, hasks.decided]
    rfl
  rw [hcases, huntracked, hterminate]
  refine ⟨rfl, ?_⟩
  unfold settleOwed owedBy
  simp [hasks.chain]

/-- What the walk of the block says of the one code that sets the flag: it publishes the code, at
the edge it leads to, just when the walk could follow the offset, the compared value and the
offset make up a `u32`, and the edge leads somewhere; otherwise it says nothing. -/
theorem told_iff (hspelled : Function.Injective spelled) (next : Option Nat)
    (successors : List Nat) (fallThrough : Option Nat) (blockAt : Nat → Option Nat)
    (layout : Layout) (reader : Option Reader) (inImage : Nat → Bool) :
    let walk := walkBlock instructions next successors fallThrough blockAt entry.facts layout
      reader inImage
    walk.Publishes (BitVec.ofInt 32 test.question.value).toNat test.question.site
        (test.lands next) ∨ test.question.site ∈ walk.untracked ↔
      test.question.followed = true ∧ test.question.value % 2 ^ 64 < 2 ^ 32 ∧
        (test.lands next).isSome = true := by
  obtain ⟨state, hasks, hcases, huntracked⟩ := test.walkBlock_eq hspelled next successors
    fallThrough blockAt layout reader inImage
  obtain ⟨hsilent, hunfollowed, hfollowed⟩ := test.readBranch_eq hasks next layout
  intro walk
  have hnone : test.question.site ∉ walk.untracked := by
    rw [show walk.untracked = [] from huntracked.trans hsilent]
    exact List.not_mem_nil
  rw [or_iff_left hnone]
  have hvalue : (BitVec.ofInt 32 test.question.value).toNat =
      (test.question.value % 2 ^ 32).toNat := by
    rw [BitVec.toNat_ofInt]
    rfl
  cases hquestion : test.question.followed with
  | false =>
    have hempty : walk.cases = [] := hcases.trans (hunfollowed hquestion)
    refine ⟨?_, nofun⟩
    rintro ⟨found, hfound, -⟩
    rw [hempty] at hfound
    cases hfound
  | true =>
    obtain ⟨proved, hread⟩ := hfollowed hquestion
    have hfound : walk.cases = _ := hcases.trans hread
    unfold Run.Publishes
    cases hlands : test.lands next with
    | none =>
      rw [hlands] at hfound
      constructor
      · rintro ⟨found, hone, -⟩
        rw [hfound] at hone
        cases hone
      · rintro ⟨-, -, hsome⟩
        cases hsome
    | some lands =>
      rw [hlands] at hfound
      constructor
      · rintro ⟨found, hone, -, -, -, hpushed⟩
        rw [hfound] at hone
        obtain rfl := List.singleton_inj.mp hone
        have hsmall := (pushed_iff _).mp hpushed
        dsimp only at hsmall
        exact ⟨rfl, by omega, rfl⟩
      · rintro ⟨-, hsmall, -⟩
        refine ⟨_, hfound, ?_, rfl, rfl, (pushed_iff _).mpr ?_⟩
        · rw [hvalue]
          dsimp only
          omega
        · dsimp only
          omega

end EqualityTest

/-- No equality test on the control code is dropped: exactly one code sets the flag, and the walk
publishes it or reports the site, just when the offset it carries never left an `i64`, the
compared value and that offset make up a `u32`, and the edge leads somewhere. -/
theorem equality_told_iff {spelled : String → String} (hspelled : Function.Injective spelled)
    {listing : List Instruction} {graph : Graph} {index : Nat} {block : Block}
    (hheld : graph.blocks.getD index { start := 0, stop := 0 } = block) {entry : DistinctFacts}
    (test : EqualityTest spelled entry ((listing.take block.stop).drop block.start))
    (machines : BitVec 32 → Machine)
    (hmeans : ∀ code, (Ledger.entered entry.facts).Means (machines code) code)
    (layout : Layout) (reader : Option Reader) (inImage : Nat → Bool) :
    (∃! code, ((machines code).run (test.body.map Decoded.line)).zero = true) ∧
      ∀ code, ((machines code).run (test.body.map Decoded.line)).zero = true →
        ((simulate index graph listing entry.facts layout reader inImage).Publishes code.toNat
            test.question.site (test.lands (listing[block.stop]?.map Instruction.address)) ∨
          test.question.site ∈
            (simulate index graph listing entry.facts layout reader inImage).untracked ↔
          test.question.followed = true ∧ test.question.value % 2 ^ 64 < 2 ^ 32 ∧
            (test.lands (listing[block.stop]?.map Instruction.address)).isSome = true) := by
  have hone := Ledger.one_code hmeans test.plain test.asks
  refine ⟨⟨_, (hone _).mpr rfl, fun code hzero => (hone code).mp hzero⟩, ?_⟩
  intro code hzero
  obtain rfl := (hone code).mp hzero
  rw [simulate_of_block hheld]
  exact test.told_iff hspelled _ _ _ _ layout reader inImage

section Runs

def ecx : String → String := Equiv.swap "rcx" "ecx"

def codeInRcx : DistinctFacts where
  facts := { registers := [("rcx", .code 0 0 true)] }
  registers := List.nodup_singleton _
  pending := List.nodup_nil

def machineWith (code : BitVec 32) : Machine :=
  ⟨fun full => if full = "rcx" then code else 0, false⟩

theorem machineWith_means (code : BitVec 32) :
    (Ledger.entered codeInRcx.facts).Means (machineWith code) code where
  registers full := by
    unfold Ledger.entered codeInRcx Facts.get machineWith
    by_cases hfull : full = "rcx"
    · subst hfull
      simp [Holding.Is]
    · simp [List.lookup_cons, beq_eq_false_iff_ne.mpr hfull, Holding.Is]
  flag := nofun

def jumpEqual (address : Nat) : Instruction where
  address
  mnemonic := "je"
  flow := .branch (some 0x140002000)
  condition := some .equal

/-- `sub ecx, 222003h`, and a `je` on it. -/
def subtractedBody : List (Decoded ecx) :=
  [.of ecx 0x140001000 (.subtract "rcx" (.immediate 0x222003))]

/-- `add ecx, 1` and `cmp ecx, 222004h`, and a `je` on the compare. -/
def incrementedBody : List (Decoded ecx) :=
  [.of ecx 0x140001000 (.add "rcx" (.immediate 1)),
    .of ecx 0x140001003 (.compare "rcx" (.immediate 0x222004))]

def branching (body : List (Decoded ecx)) (address : Nat) : List Instruction :=
  body.map Decoded.instruction ++ [jumpEqual address]

def subtracted : EqualityTest ecx codeInRcx (branching subtractedBody 0x140001006) where
  body := subtractedBody
  last := jumpEqual 0x140001006
  target := some 0x140002000
  question := ⟨0x222003, true, 0x140001000⟩
  around := rfl
  plain := ⟨rfl, trivial⟩
  asks := by decide +kernel
  flow := rfl
  condition := Or.inl rfl
  mnemonic := by decide

def incremented : EqualityTest ecx codeInRcx (branching incrementedBody 0x140001009) where
  body := incrementedBody
  last := jumpEqual 0x140001009
  target := some 0x140002000
  question := ⟨0x100222003, true, 0x140001003⟩
  around := rfl
  plain := ⟨rfl, rfl, trivial⟩
  asks := by decide +kernel
  flow := rfl
  condition := Or.inl rfl
  mnemonic := by decide

def walked (listing : List Instruction) : Run :=
  simulate 0 (graph listing) listing codeInRcx.facts .x64 none fun _ => false

theorem equality_told_iff_subtracted :
    (walked (branching subtractedBody 0x140001006)).Publishes 0x222003 0x140001000
        (some 0x140002000) ∨
      0x140001000 ∈ (walked (branching subtractedBody 0x140001006)).untracked := by
  have hblock : (graph (branching subtractedBody 0x140001006)).blocks.getD 0
      { start := 0, stop := 0 } = ⟨0, 2, []⟩ := by decide +kernel
  have hzero : ((machineWith 0x222003).run (subtracted.body.map Decoded.line)).zero = true := by
    decide +kernel
  apply ((@equality_told_iff ecx (Equiv.injective _) (branching subtractedBody 0x140001006) _ _ _
    hblock codeInRcx subtracted machineWith machineWith_means .x64 none fun _ => false).2 0x222003
    hzero).mpr
  decide +kernel

/-- The offset -1 reduced to 32 bits and the compared value make up a code past 32 bits. -/
theorem equality_dropped :
    ((machineWith 0x222003).run (incrementedBody.map Decoded.line)).zero = true ∧
      ¬ ((walked (branching incrementedBody 0x140001009)).Publishes 0x222003 0x140001003
          (some 0x140002000) ∨
        0x140001003 ∈ (walked (branching incrementedBody 0x140001009)).untracked) := by
  have hblock : (graph (branching incrementedBody 0x140001009)).blocks.getD 0
      { start := 0, stop := 0 } = ⟨0, 3, []⟩ := by decide +kernel
  refine ⟨by decide +kernel, ?_⟩
  intro htold
  unfold walked at htold
  rw [simulate_of_block hblock] at htold
  have hsmall := ((incremented.told_iff (Equiv.injective _) _ _ _ _ _ _ _).mp htold).2.1
  revert hsmall
  decide +kernel

end Runs
end WindbgMcp.Ioctl
