import WindbgMcp.Ioctl.Blocks
import WindbgMcp.Ioctl.Simulation

/-! A label inside a block: the walk of a block as one piece, and as the two pieces a label
would cut it into. -/
namespace WindbgMcp.Ioctl
open Driver (Flow)

namespace Facts

/-- What a block was entered with beside its registers. No instruction touches it: the walk
takes it out at the start and puts its own on the edges. -/
def flags (facts : Facts) : List Compared × Option Nat := (facts.pending, facts.lost)

@[simp] theorem flags_remove (facts : Facts) (register : String) :
    (facts.remove register).flags = facts.flags := rfl

@[simp] theorem flags_set (facts : Facts) (register : String) (value : Option Value) :
    (facts.set register value).flags = facts.flags := by
  cases value <;> rfl

@[simp] theorem flags_dropBoundOn (facts : Facts) (register : String) :
    (facts.dropBoundOn register).flags = facts.flags := by
  unfold dropBoundOn
  split <;> rfl

theorem flags_foldl {α : Type} (change : Facts → α → Facts)
    (hkeeps : ∀ facts a, (change facts a).flags = facts.flags) (items : List α) (facts : Facts) :
    (items.foldl change facts).flags = facts.flags := by
  induction items generalizing facts with
  | nil => rfl
  | cons item items ih => rw [List.foldl_cons, ih, hkeeps]

end Facts

@[simp] theorem flags_clearWritten (instruction : Instruction) (destination : Option String)
    (facts : Facts) : (clearWritten instruction destination facts).flags = facts.flags := by
  unfold clearWritten
  apply Facts.flags_foldl
  intro facts written
  split <;> simp

@[simp] theorem flags_clearVolatile (layout : Layout) (facts : Facts) :
    (clearVolatile layout facts).flags = facts.flags := by
  have hremoved : (layout.volatile.foldl Facts.remove
      { facts with status := { facts.status with returned := false } }).flags = facts.flags := by
    rw [Facts.flags_foldl _ Facts.flags_remove]
    rfl
  unfold clearVolatile
  dsimp only
  split
  · exact hremoved
  · exact hremoved

@[simp] theorem flags_written (facts : Facts) (instruction : Instruction) (layout : Layout)
    (register : Register) :
    (written facts instruction layout register).1.flags = facts.flags := by
  unfold written
  dsimp only
  repeat' split
  all_goals simp

theorem written_unchained {facts : Facts} {instruction : Instruction} {layout : Layout}
    {register : Register} {was : Compared}
    (hmade : (written facts instruction layout register).2.2 = some was) : was.chained = false := by
  unfold written at hmade
  dsimp only at hmade
  repeat' split at hmade
  all_goals cases hmade
  all_goals rfl

theorem compare_unchained {facts : Facts} {operands : List Operand} {layout : Layout} {place : Nat}
    {was : Compared} (hmade : (compare facts operands layout place).1 = some was) :
    was.chained = false := by
  unfold compare at hmade
  dsimp only at hmade
  repeat' split at hmade
  all_goals cases hmade
  all_goals rfl

theorem noteLoss_of_no_flags {facts : Facts} {carried : List String} {instruction : Instruction}
    {lost : Option Nat} {layout : Layout} (hquiet : instruction.writesFlags = false) :
    noteLoss facts carried instruction lost layout = (lost, false) := by
  unfold noteLoss
  rw [hquiet]
  rfl

def Instruction.isPlain (instruction : Instruction) : Bool :=
  instruction.mnemonic != "ccmp" && instruction.mnemonic != "ccmn"

theorem chainedCompare_of_plain {facts : Facts} {instruction : Instruction} {layout : Layout}
    (hplain : instruction.isPlain = true) :
    chainedCompare facts instruction layout = (none, false) := by
  unfold Instruction.isPlain at hplain
  unfold chainedCompare
  simp only [Bool.and_eq_true, bne_iff_ne] at hplain
  rw [if_neg (by simp [hplain])]

/-- What any instruction but a conditional compare leaves beside the registers. -/
structure Updated.Ordinary (updated : Updated) (facts : Facts) (instruction : Instruction)
    (lost : Option Nat) : Prop where
  flags : updated.facts.flags = facts.flags
  chained : updated.chained = none
  lost : instruction.writesFlags = false → updated.lost = lost
  next : ∀ was, updated.next = some was → was.chained = false

theorem update_ordinary {facts : Facts} {instruction : Instruction} {layout : Layout}
    {lost : Option Nat} (hplain : instruction.isPlain = true) :
    (update facts instruction layout lost).Ordinary facts instruction lost := by
  unfold update
  dsimp only
  split
  · exact ⟨rfl, rfl, fun _ => rfl, fun was hmade => compare_unchained hmade⟩
  rw [chainedCompare_of_plain hplain]
  dsimp only
  generalize hcleared : clearWritten _ _ _ = facts'
  have hsame : facts'.flags = facts.flags := by
    rw [← hcleared, flags_clearWritten]
    split
    · rw [flags_clearVolatile]
      rfl
    · rfl
  split
  · exact ⟨hsame, rfl, fun hquiet => by rw [noteLoss_of_no_flags hquiet],
      fun was hmade => by cases hmade⟩
  split
  · rename_i register _
    split
    · exact ⟨hsame, rfl, fun hquiet => by rw [noteLoss_of_no_flags hquiet],
        fun was hmade => by cases hmade⟩
    split
    · refine ⟨?_, rfl, fun hquiet => by rw [noteLoss_of_no_flags hquiet],
        fun was hmade => by cases hmade⟩
      simp [hsame]
    have hkept : ∀ dropped : Bool,
        (if dropped then { facts' with bound := none } else facts').flags = facts.flags := by
      intro dropped
      rw [← hsame]
      cases dropped <;> rfl
    have hwrote := fun dropped : Bool => (flags_written
      (if dropped then { facts' with bound := none } else facts') instruction layout
      register).trans (hkept dropped)
    split
    · rename_i hmade
      refine ⟨(congrArg (fun found => found.1.flags) hmade).symm.trans (hwrote _), rfl,
        fun _ => rfl, ?_⟩
      intro was hnext
      cases hnext
      exact written_unchained (congrArg (fun found => found.2.2) hmade)
    · rename_i hmade
      exact ⟨(congrArg (fun found => found.1.flags) hmade).symm.trans (hwrote _), rfl,
        fun hquiet => by rw [noteLoss_of_no_flags hquiet], fun was hnext => by cases hnext⟩
  · exact ⟨hsame, rfl, fun hquiet => by rw [noteLoss_of_no_flags hquiet],
      fun was hmade => by cases hmade⟩

def Facts.Unchained (facts : Facts) : Prop := ∀ was ∈ facts.pending, was.chained = false

namespace Walking

def enter (entry : Facts) : Walking :=
  { facts := { entry with pending := [], lost := none }
    compared := entry.pending, lost := entry.lost }

def leave (state : Walking) : Facts :=
  { state.facts with pending := state.compared, lost := state.lost }

/-- A walk that met no conditional compare and stands behind no loss it has not taken in. -/
structure Plain (state : Walking) : Prop where
  facts : state.facts.flags = ([], none)
  compared : ∀ was ∈ state.compared, was.chained = false
  forced : state.forced = none
  justLost : state.justLost = none
  chain : state.chain = none

theorem plain_enter {entry : Facts} (hunchained : entry.Unchained) : (enter entry).Plain :=
  ⟨rfl, hunchained, rfl, rfl, rfl⟩

theorem plain_absorb {state : Walking} {next : Option Compared}
    (hfacts : state.facts.flags = ([], none))
    (hmade : ∀ was, next = some was → was.chained = false) :
    (state.absorb next none).Plain :=
  ⟨hfacts, fun was hmember => hmade was (Option.mem_toList.mp hmember), rfl, rfl, rfl⟩

section Step
variable {layout : Layout} {state : Walking} {instruction : Instruction}
  (hordinary : instruction.isPlain = true)
  (hcalls : isCall instruction.flow = true → instruction.writesFlags = false)
include hordinary hcalls

theorem Plain.step (hplain : state.Plain) : (state.step layout instruction).Plain := by
  have hupdated := @update_ordinary state.facts instruction layout state.justLost hordinary
  have hfacts := hupdated.flags.trans hplain.facts
  unfold Walking.step
  dsimp only
  split
  · rename_i hcalled
    exact ⟨hfacts, fun was hmember => (by cases hmember), rfl,
      (hupdated.lost (hcalls hcalled)).trans hplain.justLost, rfl⟩
  split
  · rw [hupdated.chained]
    have hafter := @plain_absorb { state with
      facts := (update state.facts instruction layout state.justLost).facts } _ hfacts hupdated.next
    exact ⟨hafter.facts, hafter.compared, rfl, rfl, rfl⟩
  · rename_i hquiet
    have hsilent : instruction.writesFlags = false := by
      cases hflags : instruction.writesFlags with
      | false => rfl
      | true => simp [hflags] at hquiet
    exact ⟨hfacts, hplain.compared, hplain.forced, (hupdated.lost hsilent).trans hplain.justLost,
      hplain.chain⟩

theorem Plain.stepLast (hplain : state.Plain) : (state.stepLast layout instruction).Plain := by
  have hupdated := @update_ordinary state.facts instruction layout state.justLost hordinary
  have hfacts := hupdated.flags.trans hplain.facts
  unfold Walking.stepLast
  dsimp only
  split
  · rename_i hcalled
    exact ⟨hfacts, fun was hmember => (by cases hmember), rfl,
      (hupdated.lost (hcalls hcalled)).trans hplain.justLost, rfl⟩
  split
  · rw [hupdated.chained]
    have hafter := @plain_absorb { state with
      facts := (update state.facts instruction layout state.justLost).facts } _ hfacts hupdated.next
    exact ⟨hafter.facts, hafter.compared, rfl, rfl, rfl⟩
  · rename_i hquiet
    exact ⟨hfacts, hplain.compared, hplain.forced,
      (hupdated.lost (Bool.eq_false_of_not_eq_true hquiet)).trans hplain.justLost, hplain.chain⟩

end Step

theorem Plain.steps {layout : Layout} {instructions : List Instruction} {state : Walking}
    (hordinary : ∀ instruction ∈ instructions, instruction.isPlain = true)
    (hcalls : ∀ instruction ∈ instructions,
      isCall instruction.flow = true → instruction.writesFlags = false)
    (hplain : state.Plain) : (instructions.foldl (Walking.step layout) state).Plain := by
  induction instructions generalizing state with
  | nil => exact hplain
  | cons instruction rest ih =>
    apply ih
    · intro other hmember
      exact hordinary other (List.mem_cons_of_mem _ hmember)
    · intro other hmember
      exact hcalls other (List.mem_cons_of_mem _ hmember)
    · exact hplain.step (hordinary _ List.mem_cons_self) (hcalls _ List.mem_cons_self)

def replacesFlags (instruction : Instruction) : Bool :=
  isCall instruction.flow || instruction.writesFlags

/-- Whether the walk takes it for one: also where the decoder hides a flag write whose outcome
is known. -/
def overwrites (layout : Layout) (facts : Facts) (instruction : Instruction) : Bool :=
  replacesFlags instruction ||
    layout.staticOutcomeHidesFlagWrite && (decidesZero facts instruction).isSome

def overwritesAny (layout : Layout) : Walking → List Instruction → Bool
  | _, [] => false
  | state, instruction :: rest =>
    overwrites layout state.facts instruction ||
      overwritesAny layout (state.step layout instruction) rest

theorem decided_step (layout : Layout) (state : Walking) (instruction : Instruction) :
    (state.step layout instruction).decided =
      if overwrites layout state.facts instruction then
        if isCall instruction.flow then none else decidesZero state.facts instruction
      else state.decided := by
  unfold step overwrites replacesFlags
  dsimp only
  cases isCall instruction.flow with
  | true => rfl
  | false =>
    simp only [Bool.false_eq_true, if_false, Bool.false_or]
    split <;> rfl

/-- Two walks that differ only in what the flags they stand behind were about. -/
structure Beneath (first second : Walking) : Prop where
  facts : second.facts = first.facts
  forced : second.forced = first.forced
  justLost : second.justLost = first.justLost
  chain : second.chain = first.chain

/-- Two walks that differ in nothing a plain listing reads: the ones over the two sides of a
label disagree on what they traced, on whose the flags are and on what settled them. -/
structure Agree (first second : Walking) : Prop extends Beneath first second where
  compared : second.compared = first.compared
  lost : second.lost = first.lost

theorem agree_iff {first second : Walking} : Agree first second ↔
    second = { first with
      traced := second.traced, ownFlags := second.ownFlags, decided := second.decided } := by
  constructor
  · intro hagree
    cases second
    simp only [Walking.mk.injEq, true_and, and_true]
    exact ⟨hagree.facts, hagree.compared, hagree.lost, hagree.forced, hagree.justLost, hagree.chain⟩
  · intro hsame
    rw [hsame]
    exact ⟨⟨rfl, rfl, rfl, rfl⟩, rfl, rfl⟩

theorem Beneath.trans {first second third : Walking} (hleft : Beneath first second)
    (hright : Beneath second third) : Beneath first third :=
  ⟨hright.facts.trans hleft.facts, hright.forced.trans hleft.forced,
    hright.justLost.trans hleft.justLost, hright.chain.trans hleft.chain⟩

theorem Agree.trans {first second third : Walking} (hleft : Agree first second)
    (hright : Agree second third) : Agree first third :=
  ⟨hleft.toBeneath.trans hright.toBeneath, hright.compared.trans hleft.compared,
    hright.lost.trans hleft.lost⟩

section Agreement
variable {layout : Layout} {first second : Walking} {instruction : Instruction}
  (hordinary : instruction.isPlain = true)
include hordinary

theorem Beneath.step (hbeneath : Beneath first second) :
    Beneath (first.step layout instruction) (second.step layout instruction) := by
  have hchained :=
    (@update_ordinary first.facts instruction layout first.justLost hordinary).chained
  unfold Walking.step
  dsimp only
  rw [hbeneath.facts, hbeneath.justLost, hchained]
  split
  · exact ⟨rfl, rfl, rfl, rfl⟩
  split
  · exact ⟨rfl, rfl, rfl, rfl⟩
  · exact ⟨rfl, hbeneath.forced, rfl, hbeneath.chain⟩

/-- Behind a flag write, or a call, it no longer matters what the flags were about. -/
theorem Beneath.step_of_overwrites (hwrites : overwrites layout first.facts instruction = true)
    (hbeneath : Beneath first second) :
    Agree (first.step layout instruction) (second.step layout instruction) := by
  have hchained :=
    (@update_ordinary first.facts instruction layout first.justLost hordinary).chained
  refine ⟨hbeneath.step hordinary, ?_, ?_⟩
  all_goals
    unfold overwrites replacesFlags at hwrites
    unfold Walking.step
    dsimp only
    rw [hbeneath.facts, hbeneath.justLost, hchained]
    cases hcalled : isCall instruction.flow with
    | true => rfl
    | false =>
      rw [hcalled, Bool.false_or] at hwrites
      rw [hwrites]
      rfl

theorem Agree.step (hagree : Agree first second) :
    Agree (first.step layout instruction) (second.step layout instruction) := by
  have hchained :=
    (@update_ordinary first.facts instruction layout first.justLost hordinary).chained
  rw [agree_iff.mp hagree]
  unfold Walking.step
  dsimp only
  rw [hchained]
  split
  · exact ⟨⟨rfl, rfl, rfl, rfl⟩, rfl, rfl⟩
  split
  · exact ⟨⟨rfl, rfl, rfl, rfl⟩, rfl, rfl⟩
  · exact ⟨⟨rfl, rfl, rfl, rfl⟩, rfl, rfl⟩

theorem Agree.stepLast (hagree : Agree first second) :
    Agree (first.stepLast layout instruction) (second.stepLast layout instruction) := by
  have hchained :=
    (@update_ordinary first.facts instruction layout first.justLost hordinary).chained
  rw [agree_iff.mp hagree]
  unfold Walking.stepLast
  dsimp only
  rw [hchained]
  split
  · exact ⟨⟨rfl, rfl, rfl, rfl⟩, rfl, rfl⟩
  split
  · exact ⟨⟨rfl, rfl, rfl, rfl⟩, rfl, rfl⟩
  · exact ⟨⟨rfl, rfl, rfl, rfl⟩, rfl, rfl⟩

end Agreement

theorem Plain.beneath {first second : Walking} (hleft : first.Plain) (hright : second.Plain)
    (hfacts : second.facts = first.facts) : Beneath first second :=
  ⟨hfacts, hright.forced.trans hleft.forced.symm, hright.justLost.trans hleft.justLost.symm,
    hright.chain.trans hleft.chain.symm⟩

/-- A block entered with what a plain walk handed on starts where that walk stands, but for whose
the flags are and what settled them. -/
theorem Plain.enter_leave {state : Walking} (hplain : state.Plain) :
    Agree state (.enter state.leave) := by
  have hflags := hplain.facts
  refine ⟨⟨?_, hplain.forced.symm, hplain.justLost.symm, hplain.chain.symm⟩, rfl, rfl⟩
  obtain ⟨⟨registers, bound, pending, lost, status⟩, _⟩ := state
  injection hflags with hpending hlost
  unfold enter leave
  dsimp only at hpending hlost ⊢
  rw [hpending, hlost]

theorem facts_step (layout : Layout) (state : Walking) (instruction : Instruction) :
    (state.step layout instruction).facts =
      (update state.facts instruction layout state.justLost).facts := by
  unfold step absorb clobber
  dsimp only
  repeat' split
  all_goals rfl

theorem facts_stepLast (layout : Layout) (state : Walking) (instruction : Instruction) :
    (state.stepLast layout instruction).facts =
      (update state.facts instruction layout state.justLost).facts := by
  unfold stepLast absorb
  dsimp only
  repeat' split
  all_goals rfl

/-- The transition is written twice, and the second copy misses the flag write a decoder hides
because its outcome is known. -/
theorem agree_stepLast {layout : Layout} {state : Walking} {instruction : Instruction}
    (hordinary : instruction.isPlain = true)
    (hshown : overwrites layout state.facts instruction = true → replacesFlags instruction = true) :
    Agree (state.step layout instruction) (state.stepLast layout instruction) := by
  have hchained :=
    (@update_ordinary state.facts instruction layout state.justLost hordinary).chained
  unfold overwrites replacesFlags at hshown
  unfold Walking.step Walking.stepLast
  dsimp only
  rw [hchained]
  split
  · exact ⟨⟨rfl, rfl, rfl, rfl⟩, rfl, rfl⟩
  rename_i hnotCall
  cases hflags : instruction.writesFlags with
  | true => exact ⟨⟨rfl, rfl, rfl, rfl⟩, rfl, rfl⟩
  | false =>
    have hseen : (layout.staticOutcomeHidesFlagWrite &&
        (decidesZero state.facts instruction).isSome) = false := by
      simpa [hnotCall, hflags] using hshown
    rw [Bool.false_or, hseen]
    exact ⟨⟨rfl, rfl, rfl, rfl⟩, rfl, rfl⟩

section Steps
variable {layout : Layout} {instructions : List Instruction} {first second : Walking}
  (hordinary : ∀ instruction ∈ instructions, instruction.isPlain = true)
include hordinary

theorem Agree.steps (hagree : Agree first second) :
    Agree (instructions.foldl (Walking.step layout) first)
      (instructions.foldl (Walking.step layout) second) := by
  induction instructions generalizing first second with
  | nil => exact hagree
  | cons instruction rest ih =>
    apply ih
    · intro other hmember
      exact hordinary other (List.mem_cons_of_mem _ hmember)
    · exact hagree.step (hordinary _ List.mem_cons_self)

/-- Where two walks agree, what settles the flags behind the first flag write is the same; in
front of it each walk keeps what it came with. -/
theorem Agree.decided_steps (hagree : Agree first second) :
    (instructions.foldl (Walking.step layout) second).decided =
        (instructions.foldl (Walking.step layout) first).decided ∨
      (instructions.foldl (Walking.step layout) first).decided = first.decided ∧
        (instructions.foldl (Walking.step layout) second).decided = second.decided := by
  induction instructions generalizing first second with
  | nil => exact .inr ⟨rfl, rfl⟩
  | cons instruction rest ih =>
    have honFirst := decided_step layout first instruction
    have honSecond := decided_step layout second instruction
    rw [hagree.facts] at honSecond
    have hbehind := ih (fun other hmember => hordinary other (List.mem_cons_of_mem _ hmember))
      (@Agree.step layout _ _ _ (hordinary _ List.mem_cons_self) hagree)
    simp only [List.foldl_cons]
    by_cases hwrites : overwrites layout first.facts instruction = true
    · rw [if_pos hwrites] at honFirst honSecond
      left
      cases hbehind with
      | inl hsame => exact hsame
      | inr hkept => rw [hkept.1, hkept.2, honFirst, honSecond]
    · rw [if_neg hwrites] at honFirst honSecond
      cases hbehind with
      | inl hsame => exact .inl hsame
      | inr hkept => exact .inr ⟨hkept.1.trans honFirst, hkept.2.trans honSecond⟩

theorem Beneath.steps (hwrites : overwritesAny layout first instructions = true)
    (hbeneath : Beneath first second) :
    Agree (instructions.foldl (Walking.step layout) first)
        (instructions.foldl (Walking.step layout) second) ∧
      (instructions.foldl (Walking.step layout) second).decided =
        (instructions.foldl (Walking.step layout) first).decided := by
  induction instructions generalizing first second with
  | nil => cases hwrites
  | cons instruction rest ih =>
    have hothers : ∀ other ∈ rest, other.isPlain = true :=
      fun other hmember => hordinary other (List.mem_cons_of_mem _ hmember)
    have hplain := hordinary instruction List.mem_cons_self
    simp only [List.foldl_cons]
    by_cases hhere : overwrites layout first.facts instruction = true
    · have hagree := @Beneath.step_of_overwrites layout _ _ _ hplain hhere hbeneath
      have hsame : (second.step layout instruction).decided =
          (first.step layout instruction).decided := by
        rw [decided_step, decided_step, hbeneath.facts, if_pos hhere, if_pos hhere]
      refine ⟨hagree.steps hothers, ?_⟩
      cases hagree.decided_steps hothers with
      | inl hsame => exact hsame
      | inr hkept => rw [hkept.1, hkept.2, hsame]
    · apply ih hothers
      · unfold overwritesAny at hwrites
        rwa [Bool.eq_false_of_not_eq_true hhere, Bool.false_or] at hwrites
      · exact hbeneath.step hplain

end Steps

end Walking

section Terminator
variable {first second : Walking} {last : Instruction}
  (hagree : Walking.Agree first second)
include hagree

/-- An indirect jump apart, the terminator reads nothing of a block but the walk in front of
it. -/
theorem Walking.Agree.terminate (hordinary : last.isPlain = true) (hdirect : last.flow ≠ .jmp none)
    (layout : Layout) (settled : Option Bool) (front front' : List Instruction)
    (entry entry' : Facts) (next : Option Nat) (reader : Option Reader) (inImage : Nat → Bool) :
    Walking.Agree (terminate first settled front last entry next layout reader inImage).1
        (terminate second settled front' last entry' next layout reader inImage).1 ∧
      (terminate second settled front' last entry' next layout reader inImage).2 =
        (terminate first settled front last entry next layout reader inImage).2 := by
  unfold Ioctl.terminate
  split
  · split
    · exact ⟨hagree, rfl⟩
    · rw [Walking.agree_iff.mp hagree]
      exact ⟨⟨⟨rfl, rfl, rfl, rfl⟩, rfl, rfl⟩, rfl⟩
  · rename_i hindirect
    exact absurd hindirect hdirect
  · exact ⟨hagree.stepLast hordinary, rfl⟩

theorem Walking.Agree.settleOwed (last : Option Instruction) :
    settleOwed second last = settleOwed first last := by
  rw [Walking.agree_iff.mp hagree]
  rfl

theorem Walking.Agree.edges (last : Option Instruction) (successors : List Nat)
    (fallThrough : Option Nat) (blockAt : Nat → Option Nat) (lost : Option Nat) :
    edges second last successors fallThrough blockAt lost =
      edges first last successors fallThrough blockAt lost := by
  rw [Walking.agree_iff.mp hagree]
  rfl

end Terminator

theorem walkBlock_concat (front : List Instruction) (last : Instruction) (next : Option Nat)
    (successors : List Nat) (fallThrough : Option Nat) (blockAt : Nat → Option Nat)
    (entry : Facts) (layout : Layout) (reader : Option Reader) (inImage : Nat → Bool) :
    let state := front.foldl (Walking.step layout) (.enter entry)
    let settled := settledBy state.decided (some last)
    let ended := terminate state settled front last entry next layout reader inImage
    let owed := settleOwed ended.1 (some last)
    let walk := walkBlock (front ++ [last]) next successors fallThrough blockAt entry layout reader
      inImage
    walk.cases = ended.2.cases ∧ walk.untracked = ended.2.untracked ++ owed.1 ∧
      walk.out = (edges ended.1 (some last) successors fallThrough blockAt owed.2).filter
        fun edge => some edge.1 ≠
          deadEdge settled fallThrough (takenBlock blockAt (some last)) := by
  unfold walkBlock
  simp only [List.dropLast_concat, List.getLast?_concat]
  exact ⟨rfl, rfl, rfl⟩

theorem Walking.Agree.walkBlock {front front' : List Instruction} {entry entry' : Facts}
    {last : Instruction} {layout : Layout}
    (hagree : Walking.Agree (front.foldl (Walking.step layout) (.enter entry))
      (front'.foldl (Walking.step layout) (.enter entry')))
    (hsettled : settledBy (front'.foldl (Walking.step layout) (.enter entry')).decided (some last) =
      settledBy (front.foldl (Walking.step layout) (.enter entry)).decided (some last))
    (hordinary : last.isPlain = true) (hdirect : last.flow ≠ .jmp none)
    (next : Option Nat) (successors : List Nat) (fallThrough : Option Nat)
    (blockAt : Nat → Option Nat) (reader : Option Reader) (inImage : Nat → Bool) :
    let walk := Ioctl.walkBlock (front ++ [last]) next successors fallThrough blockAt entry layout
      reader inImage
    let walk' := Ioctl.walkBlock (front' ++ [last]) next successors fallThrough blockAt entry'
      layout reader inImage
    walk'.cases = walk.cases ∧ walk'.untracked = walk.untracked ∧ walk'.out = walk.out := by
  intro walk walk'
  have hours := walkBlock_concat front last next successors fallThrough blockAt entry layout reader
    inImage
  have htheirs := walkBlock_concat front' last next successors fallThrough blockAt entry' layout
    reader inImage
  dsimp only at hours htheirs
  rw [hsettled] at htheirs
  have hended := hagree.terminate hordinary hdirect layout
    (settledBy (front.foldl (Walking.step layout) (.enter entry)).decided (some last))
    front front' entry entry' next reader inImage
  rw [hended.1.settleOwed, hended.1.edges, hended.2] at htheirs
  exact ⟨htheirs.1.trans hours.1.symm, htheirs.2.1.trans hours.2.1.symm,
    htheirs.2.2.trans hours.2.2.symm⟩

theorem bounding_default {state : Walking} {last : Instruction} {bound : Bound}
    (hfound : bounding state (some last) = some bound) : last.flow = .branch bound.default := by
  unfold bounding at hfound
  split at hfound
  · rename_i target condition hflow _
    split at hfound
    · obtain ⟨was, _, hmade⟩ := List.exists_of_findSome?_eq_some hfound
      simp only [Option.bind_eq_some_iff] at hmade
      obtain ⟨_, _, limit, _, hmade⟩ := hmade
      split at hmade
      · cases hmade
      · obtain ⟨_, _, hsame⟩ := Option.map_eq_some_iff.mp hmade
        rw [← hsame]
        exact Option.some.inj hflow
    · cases hfound
  · cases hfound

section Targets
variable {last : Instruction} {blockAt blockAt' : Nat → Option Nat}
  (hsame : ∀ target, last.flow = .branch (some target) → blockAt' target = blockAt target)
include hsame

theorem takenBlock_congr : takenBlock blockAt' (some last) = takenBlock blockAt (some last) := by
  unfold takenBlock
  split
  · rename_i target hflow
    exact hsame target (Option.some.inj hflow)
  · rfl

theorem edges_congr (state : Walking) (successors : List Nat) (fallThrough lost : Option Nat) :
    edges state (some last) successors fallThrough blockAt' lost =
      edges state (some last) successors fallThrough blockAt lost := by
  unfold edges
  rw [takenBlock_congr hsame]
  dsimp only
  split
  · rename_i bound hfound
    have hdefault : bound.default.bind blockAt' = bound.default.bind blockAt := by
      cases hknown : bound.default with
      | none => rfl
      | some target =>
        have hflow := bounding_default hfound
        rw [hknown] at hflow
        exact hsame target hflow
    rw [hdefault]
  · rfl

theorem walkBlock_congr (front : List Instruction) (next : Option Nat) (successors : List Nat)
    (fallThrough : Option Nat) (entry : Facts) (layout : Layout) (reader : Option Reader)
    (inImage : Nat → Bool) :
    walkBlock (front ++ [last]) next successors fallThrough blockAt' entry layout reader inImage =
      walkBlock (front ++ [last]) next successors fallThrough blockAt entry layout reader
        inImage := by
  unfold walkBlock
  simp only [List.getLast?_concat, edges_congr hsame, takenBlock_congr hsame]

end Targets

section Falling
variable {last : Instruction} (hfalls : endsABlock last.flow = false)
include hfalls

theorem flow_of_falls : (∃ target, last.flow = .call target) ∨ last.flow = .fallthrough := by
  cases hflow : last.flow with
  | call target => exact .inl ⟨target, rfl⟩
  | «fallthrough» => exact .inr rfl
  | _ => rw [hflow] at hfalls; cases hfalls

theorem settledBy_of_falls (decided : Option Bool) : settledBy decided (some last) = none := by
  unfold settledBy
  rcases flow_of_falls hfalls with ⟨target, hflow⟩ | hflow
  all_goals cases decided <;> simp [hflow]

theorem terminate_of_falls (state : Walking) (settled : Option Bool) (front : List Instruction)
    (entry : Facts) (next : Option Nat) (layout : Layout) (reader : Option Reader)
    (inImage : Nat → Bool) :
    terminate state settled front last entry next layout reader inImage =
      (state.stepLast layout last, {}) := by
  unfold terminate
  rcases flow_of_falls hfalls with ⟨target, hflow⟩ | hflow
  all_goals rw [hflow]

theorem edges_of_falls (state : Walking) (successor : Nat) (fallThrough : Option Nat)
    (blockAt : Nat → Option Nat) (lost : Option Nat) :
    edges state (some last) [successor] fallThrough blockAt lost =
      [(successor, { state.facts with
        pending := state.compared.filter fun was => !was.chained, lost })] := by
  unfold edges bounding onward
  rcases flow_of_falls hfalls with ⟨target, hflow⟩ | hflow
  all_goals simp [hflow]

end Falling

section Split
variable {layout : Layout} {entry : Facts} {before : List Instruction} {previous : Instruction}
  (hordinary : ∀ instruction ∈ before ++ [previous], instruction.isPlain = true)
  (hcalls : ∀ instruction ∈ before ++ [previous],
    isCall instruction.flow = true → instruction.writesFlags = false)
  (hfalls : endsABlock previous.flow = false)
  (hunchained : entry.Unchained)
include hordinary hcalls hfalls hunchained

theorem walkBlock_first (next : Option Nat) (successor : Nat) (fallThrough : Option Nat)
    (blockAt : Nat → Option Nat) (reader : Option Reader) (inImage : Nat → Bool) :
    let state := (before.foldl (Walking.step layout) (.enter entry)).stepLast layout previous
    let walk := walkBlock (before ++ [previous]) next [successor] fallThrough blockAt entry layout
      reader inImage
    walk.cases = [] ∧ walk.untracked = [] ∧ walk.out = [(successor, state.leave)] := by
  intro state walk
  have hfront : (before.foldl (Walking.step layout) (.enter entry)).Plain :=
    Walking.Plain.steps (fun other hmember => hordinary other (List.mem_append_left _ hmember))
      (fun other hmember => hcalls other (List.mem_append_left _ hmember))
      (Walking.plain_enter hunchained)
  have hplain : state.Plain := hfront.stepLast (hordinary _ (by simp)) (hcalls _ (by simp))
  have hspec := walkBlock_concat before previous next [successor] fallThrough blockAt entry layout
    reader inImage
  have howed : settleOwed state (some previous) = ([], state.lost) := by
    unfold settleOwed owedBy
    rw [hplain.chain, hplain.forced]
    simp
  have hlive : state.compared.filter (fun was => !was.chained) = state.compared := by
    apply List.filter_eq_self.mpr
    intro was hmember
    rw [hplain.compared was hmember]
    rfl
  simp only [settledBy_of_falls hfalls, terminate_of_falls hfalls, edges_of_falls hfalls] at hspec
  rw [howed, hlive] at hspec
  refine ⟨hspec.1, hspec.2.1, hspec.2.2.trans ?_⟩
  simp only [deadEdge, List.filter_cons, List.filter_nil]
  rfl

end Split

/-- Whether what the terminator reads was settled in front of the label: nothing behind the
label writes the flags again, and either the settled flag decides the branch, or the last
instruction in front of the label is a flag write the decoder hides. -/
def settledAcross (layout : Layout) (entry : Facts) (before after : List Instruction) : Bool :=
  let reached := before.dropLast.foldl (Walking.step layout) (.enter entry)
  let state := before.foldl (Walking.step layout) (.enter entry)
  !Walking.overwritesAny layout state after.dropLast &&
    ((settledBy state.decided after.getLast?).isSome ||
      before.getLast?.any fun last =>
        Walking.overwrites layout reached.facts last && !Walking.replacesFlags last)

section Pieces
variable {layout : Layout} {entry : Facts} {before rest : List Instruction}
  {previous last : Instruction}
  (hordinary : ∀ instruction ∈ before ++ [previous] ++ (rest ++ [last]),
    instruction.isPlain = true)
  (hcalls : ∀ instruction ∈ before ++ [previous],
    isCall instruction.flow = true → instruction.writesFlags = false)
  (hunchained : entry.Unchained)
  (hunsettled : settledAcross layout entry (before ++ [previous]) (rest ++ [last]) = false)
include hordinary hcalls hunchained hunsettled

/-- In front of the terminator the two walks agree, and a branch is settled for both or for
neither. -/
theorem agree_behind :
    let state := before.foldl (Walking.step layout) (.enter entry)
    let whole := rest.foldl (Walking.step layout) (state.step layout previous)
    let second := rest.foldl (Walking.step layout) (.enter (state.stepLast layout previous).leave)
    Walking.Agree whole second ∧
      settledBy second.decided (some last) = settledBy whole.decided (some last) := by
  intro state whole second
  have hplainBefore : ∀ other ∈ before, other.isPlain = true :=
    fun other hmember => hordinary other (by simp [hmember])
  have hplainRest : ∀ other ∈ rest, other.isPlain = true :=
    fun other hmember => hordinary other (by simp [hmember])
  have hplainPrevious : previous.isPlain = true := hordinary previous (by simp)
  have hcallsPrevious := hcalls previous (by simp)
  have hfront : state.Plain := Walking.Plain.steps hplainBefore
    (fun other hmember => hcalls other (List.mem_append_left _ hmember))
    (Walking.plain_enter hunchained)
  have hhanded := (@Walking.Plain.stepLast layout _ _ hplainPrevious hcallsPrevious hfront)
  have hentered := hhanded.enter_leave
  by_cases hwrites : Walking.overwritesAny layout (state.step layout previous) rest = true
  · have hbeneath : Walking.Beneath (state.step layout previous)
        (state.stepLast layout previous) :=
      (hfront.step hplainPrevious hcallsPrevious).beneath hhanded
        ((Walking.facts_stepLast ..).trans (Walking.facts_step ..).symm)
    have hbehind := @Walking.Beneath.steps layout _ _ _ hplainRest hwrites
      (hbeneath.trans hentered.toBeneath)
    exact ⟨hbehind.1, congrArg (settledBy · (some last)) hbehind.2⟩
  · have hquiet : Walking.overwritesAny layout
        ((before.foldl (Walking.step layout) (.enter entry)).step layout previous) rest = false :=
      Bool.eq_false_of_not_eq_true hwrites
    unfold settledAcross at hunsettled
    simp only [List.dropLast_concat, List.getLast?_concat, List.foldl_append, List.foldl_cons,
      List.foldl_nil, hquiet, Bool.not_false, Bool.true_and, Bool.or_eq_false_iff,
      Option.any_some] at hunsettled
    have hshown : Walking.overwrites layout state.facts previous = true →
        Walking.replacesFlags previous = true := by
      intro hwrites
      simpa [state, hwrites] using hunsettled.2
    have hagree := (Walking.agree_stepLast hplainPrevious hshown).trans hentered
    refine ⟨hagree.steps hplainRest, ?_⟩
    cases hagree.decided_steps hplainRest with
    | inl hsame => exact congrArg (settledBy · (some last)) hsame
    | inr hkept =>
      have hopen' : settledBy (state.step layout previous).decided (some last) = none :=
        Option.isSome_eq_false_iff.mp hunsettled.1 |> Option.isNone_iff_eq_none.mp
      rw [show whole.decided = _ from hkept.1, show second.decided = _ from hkept.2, hopen']
      rfl

theorem walkBlock_split (hfalls : endsABlock previous.flow = false)
    (hdirect : last.flow ≠ .jmp none) (next next' : Option Nat) (successor : Nat)
    (successors : List Nat) (fallThrough fallThrough' : Option Nat)
    (blockAt blockAt' : Nat → Option Nat) (reader : Option Reader) (inImage : Nat → Bool) :
    let whole := walkBlock (before ++ [previous] ++ (rest ++ [last])) next successors fallThrough
      blockAt entry layout reader inImage
    let first := walkBlock (before ++ [previous]) next' [successor] fallThrough' blockAt' entry
      layout reader inImage
    ∃ onward, first.out = [(successor, onward)] ∧
      let second := walkBlock (rest ++ [last]) next successors fallThrough blockAt onward layout
        reader inImage
      first.cases ++ second.cases = whole.cases ∧
        first.untracked ++ second.untracked = whole.untracked ∧ second.out = whole.out := by
  intro whole first
  have hfront := @walkBlock_first layout entry before previous
    (fun other hmember => hordinary other (List.mem_append_left _ hmember)) hcalls hfalls hunchained
    next' successor fallThrough' blockAt' reader inImage
  refine ⟨_, hfront.2.2, ?_⟩
  intro second
  have hbehind := agree_behind hordinary hcalls hunchained hunsettled
  have hfolded : (before ++ [previous] ++ rest).foldl (Walking.step layout) (.enter entry) =
      rest.foldl (Walking.step layout)
        ((before.foldl (Walking.step layout) (.enter entry)).step layout previous) := by
    simp
  dsimp only at hbehind
  rw [← hfolded] at hbehind
  have hsame := hbehind.1.walkBlock hbehind.2 (hordinary last (by simp)) hdirect next successors
    fallThrough blockAt reader inImage
  rw [List.append_assoc (before ++ [previous])] at hsame
  exact ⟨by rw [hfront.1, List.nil_append]; exact hsame.1,
    by rw [hfront.2.1, List.nil_append]; exact hsame.2.1, hsame.2.2⟩

end Pieces

/-- The graph with one block cut in two in front of `position`. The second piece's number is
new, so every other block keeps its own. -/
def Graph.split (graph : Graph) (index position : Nat) : Graph :=
  let block := graph.blocks.getD index { start := 0, stop := 0 }
  { blocks := graph.blocks.set index
        { start := block.start, stop := position, successors := [graph.blocks.length] } ++
      [{ start := position, stop := block.stop, successors := block.successors }]
    byInstruction := graph.byInstruction.mapIdx fun place holder =>
      if position ≤ place ∧ place < block.stop then graph.blocks.length else holder }

section SplitGraph
variable {graph : Graph} {index position : Nat} {block : Block}
  (hheld : graph.blocks[index]? = some block)
include hheld

theorem getD_of_held : graph.blocks.getD index { start := 0, stop := 0 } = block := by
  rw [List.getD_eq_getElem?_getD, hheld]
  rfl

theorem split_first : (graph.split index position).blocks.getD index { start := 0, stop := 0 } =
    { start := block.start, stop := position, successors := [graph.blocks.length] } := by
  have hbound := (List.getElem?_eq_some_iff.mp hheld).1
  unfold Graph.split
  rw [List.getD_eq_getElem?_getD, getD_of_held hheld,
    List.getElem?_append_left (by simpa using hbound), List.getElem?_set_self hbound]
  rfl

theorem split_second :
    (graph.split index position).blocks.getD graph.blocks.length { start := 0, stop := 0 } =
      { start := position, stop := block.stop, successors := block.successors } := by
  unfold Graph.split
  rw [List.getD_eq_getElem?_getD, getD_of_held hheld, List.getElem?_append_right (by simp)]
  simp

theorem split_holding {place : Nat} (houtside : ¬(position ≤ place ∧ place < block.stop)) :
    (graph.split index position).holding place = graph.holding place := by
  unfold Graph.holding Graph.split
  rw [getD_of_held hheld, List.getElem?_mapIdx]
  simp [houtside]

end SplitGraph

theorem le_indexOf {listing : List Instruction} {place found : Nat} {instruction : Instruction}
    (hstands : listing[place]? = some instruction)
    (hlooked : indexOf listing instruction.address = some found) : place ≤ found := by
  obtain ⟨last, hfirst, rfl⟩ := Option.map_eq_some_iff.mp hlooked
  obtain ⟨hwithin, hhere⟩ := List.getElem?_eq_some_iff.mp hstands
  have hpasses : (listing.get ⟨place, hwithin⟩).address == instruction.address := by simp [hhere]
  exact Library.le_lastPlace hpasses hfirst

theorem slice_split (listing : List Instruction) {start position stop : Nat}
    (hinside : start < position ∧ position < stop) :
    (listing.take stop).drop start =
      (listing.take position).drop start ++ (listing.take stop).drop position := by
  have hfront : ((listing.take stop).drop start).take (position - start) =
      (listing.take position).drop start := by
    rw [List.drop_take, List.drop_take, List.take_take]
    congr 1
    omega
  have hback : ((listing.take stop).drop start).drop (position - start) =
      (listing.take stop).drop position := by
    rw [List.drop_drop]
    congr 1
    omega
  rw [← hfront, ← hback, List.take_append_drop]

theorem slice_concat (listing : List Instruction) {start stop : Nat} (hnonempty : start < stop)
    (hwithin : stop ≤ listing.length) :
    ∃ front last, (listing.take stop).drop start = front ++ [last] ∧
      listing[stop - 1]? = some last := by
  have hbound : stop - 1 < listing.length := by omega
  refine ⟨(listing.take (stop - 1)).drop start, listing[stop - 1], ?_,
    List.getElem?_eq_getElem hbound⟩
  have htaken : listing.take stop = listing.take (stop - 1) ++ [listing[stop - 1]] := by
    rw [List.take_append_getElem hbound]
    congr 1
    omega
  rw [htaken, List.drop_append_of_le_length (by simp; omega)]

def Graph.holder (graph : Graph) (listing : List Instruction) (address : Nat) : Option Nat :=
  (indexOf listing address).bind graph.holding

theorem simulate_of_block {index : Nat} {graph : Graph} {block : Block}
    (hheld : graph.blocks.getD index { start := 0, stop := 0 } = block)
    (listing : List Instruction) (entry : Facts) (layout : Layout) (reader : Option Reader)
    (inImage : Nat → Bool) :
    simulate index graph listing entry layout reader inImage =
      walkBlock ((listing.take block.stop).drop block.start)
        (listing[block.stop]?.map Instruction.address) block.successors
        ((listing[block.stop]?.map Instruction.address).bind (graph.holder listing))
        (graph.holder listing) entry layout reader inImage := by
  subst hheld
  rfl

theorem onward_unchained (compared : List Compared) (last : Option Instruction) :
    (∀ was ∈ (onward compared last).1, was.chained = false) ∧
      ∀ was ∈ (onward compared last).2, was.chained = false := by
  have hlive : ∀ was ∈ compared.filter fun was => !was.chained, was.chained = false := by
    intro was hmember
    simpa using (List.mem_filter.mp hmember).2
  unfold onward
  dsimp only
  split
  · exact ⟨fun was hmember => hlive was (List.mem_filter.mp hmember).1,
      fun was hmember => hlive was (List.mem_filter.mp hmember).1⟩
  · exact ⟨hlive, hlive⟩

theorem edges_unchained (state : Walking) (last : Option Instruction) (successors : List Nat)
    (fallThrough : Option Nat) (blockAt : Nat → Option Nat) (lost : Option Nat) :
    ∀ edge ∈ edges state last successors fallThrough blockAt lost, edge.2.Unchained := by
  have hlive := onward_unchained state.compared last
  intro edge hmember
  unfold edges at hmember
  dsimp only at hmember
  split at hmember
  · rw [List.mem_append, List.mem_map, List.mem_map] at hmember
    rcases hmember with ⟨successor, _, hsame⟩ | ⟨successor, _, hsame⟩
    · subst hsame
      exact hlive.2
    · subst hsame
      exact hlive.1
  · obtain ⟨successor, _, hsame⟩ := List.mem_map.mp hmember
    subst hsame
    unfold Facts.Unchained
    dsimp only
    split
    · exact hlive.2
    · rw [ite_self]
      exact hlive.1

theorem simulate_unchained (index : Nat) (graph : Graph) (listing : List Instruction)
    (entry : Facts) (layout : Layout) (reader : Option Reader) (inImage : Nat → Bool) :
    ∀ edge ∈ (simulate index graph listing entry layout reader inImage).out,
      edge.2.Unchained := by
  intro edge hmember
  exact edges_unchained _ _ _ _ _ _ edge (List.mem_filter.mp hmember).1

theorem Facts.Unchained.join {facts other : Facts} (hours : facts.Unchained)
    (htheirs : other.Unchained) : (facts.join other).1.Unchained := by
  have hadded : ∀ (more pending : List Compared), (∀ was ∈ more, was.chained = false) →
      (∀ was ∈ pending, was.chained = false) →
      ∀ was ∈ more.foldl (fun pending was => if was ∈ pending then pending else pending ++ [was])
        pending, was.chained = false := by
    intro more
    induction more with
    | nil => exact fun pending _ hkept => hkept
    | cons next more ih =>
      intro pending hfresh hkept
      apply ih
      · exact fun was hmember => hfresh was (List.mem_cons_of_mem _ hmember)
      · intro was hmember
        dsimp only at hmember
        split at hmember
        · exact hkept was hmember
        · rw [List.mem_append, List.mem_singleton] at hmember
          cases hmember with
          | inl hmember => exact hkept was hmember
          | inr hsame => rw [hsame]; exact hfresh next List.mem_cons_self
  intro was hmember
  exact hadded _ _ htheirs hours was ((List.mem_insertionSort _).mp hmember)

/-- A label changes nothing in what a block publishes and hands on, unless it falls behind the
idiom that settled the flags the block's branch reads. -/
theorem simulate_split (listing : List Instruction) (layout : Layout) (reader : Option Reader)
    (inImage : Nat → Bool) (entry : Facts) (index position : Nat) (block : Block)
    (hheld : (graph listing).blocks[index]? = some block)
    (hinside : block.start < position ∧ position < block.stop)
    (hordinary : ∀ instruction ∈ listing, instruction.isPlain = true)
    (hdirect : ∀ last, listing[block.stop - 1]? = some last → last.flow ≠ .jmp none)
    (hcalls : ∀ instruction ∈ (listing.take position).drop block.start,
      isCall instruction.flow = true → instruction.writesFlags = false)
    (hunchained : entry.Unchained)
    (hunsettled : settledAcross layout entry ((listing.take position).drop block.start)
      ((listing.take block.stop).drop position) = false) :
    let whole := simulate index (graph listing) listing entry layout reader inImage
    let split := (graph listing).split index position
    let first := simulate index split listing entry layout reader inImage
    let behind := (graph listing).blocks.length
    ∃ onward, first.out = [(behind, onward)] ∧
      let second := simulate behind split listing onward layout reader inImage
      first.cases ++ second.cases = whole.cases ∧
        first.untracked ++ second.untracked = whole.untracked ∧ second.out = whole.out := by
  have hspec := graph_block_spec hheld
  obtain ⟨before, previous, hfront, hfoundPrevious⟩ :=
    slice_concat listing hinside.1 (by omega : position ≤ listing.length)
  obtain ⟨rest, last, hback, hfoundLast⟩ := slice_concat listing hinside.2 hspec.1
  have hmember : last ∈ listing := List.mem_of_getElem? hfoundLast
  have hslice := slice_split listing hinside
  have hplain : ∀ instruction ∈ before ++ [previous] ++ (rest ++ [last]),
      instruction.isPlain = true := by
    rw [← hfront, ← hback, ← hslice]
    intro instruction hfound
    exact hordinary instruction (List.mem_of_mem_take (List.mem_of_mem_drop hfound))
  have hfalls := falls_inside hheld hinside hfoundPrevious
  rw [hfront] at hcalls
  rw [hfront, hback] at hunsettled
  -- What the second piece asks of the split graph is outside it.
  have htaken : ∀ target, last.flow = .branch (some target) →
      ((graph listing).split index position).holder listing target =
        (graph listing).holder listing target := by
    intro target hflow
    unfold Graph.holder
    cases hfound : indexOf listing target with
    | none => rfl
    | some place => exact split_holding hheld (target_outside hheld hinside hmember hflow hfound)
  have hfallen : (listing[block.stop]?.map Instruction.address).bind
        (((graph listing).split index position).holder listing) =
      (listing[block.stop]?.map Instruction.address).bind ((graph listing).holder listing) := by
    cases hstands : listing[block.stop]? with
    | none => rfl
    | some next =>
      dsimp only [Option.map_some, Option.bind_some, Graph.holder]
      cases hfound : indexOf listing next.address with
      | none => rfl
      | some place =>
        have hpast := le_indexOf hstands hfound
        exact split_holding hheld (by omega)
  have hwholeWalk := simulate_of_block (getD_of_held hheld) listing entry layout reader inImage
  have hfirstWalk := simulate_of_block (@split_first _ _ position _ hheld) listing entry layout
    reader inImage
  rw [hslice, hfront, hback] at hwholeWalk
  rw [hfront] at hfirstWalk
  have hpieces := walkBlock_split hplain hcalls hunchained hunsettled hfalls
    (hdirect last hfoundLast) (listing[block.stop]?.map Instruction.address)
    (listing[position]?.map Instruction.address)
    (graph listing).blocks.length block.successors
    ((listing[block.stop]?.map Instruction.address).bind ((graph listing).holder listing))
    ((listing[position]?.map Instruction.address).bind
      (((graph listing).split index position).holder listing))
    ((graph listing).holder listing) (((graph listing).split index position).holder listing)
    reader inImage
  rw [← hwholeWalk, ← hfirstWalk] at hpieces
  obtain ⟨onward, hout, hsame⟩ := hpieces
  refine ⟨onward, hout, ?_⟩
  have hsecondWalk := simulate_of_block (@split_second _ _ position _ hheld) listing onward layout
    reader inImage
  rw [hback, hfallen, walkBlock_congr htaken] at hsecondWalk
  rw [← hsecondWalk] at hsame
  exact hsame

namespace Sample

def r64 (full : String) : Register := { name := full, full, width := 8 }

def r32 (name full : String) : Register := { name, full, width := 4 }

def load (address : Nat) (into base : Register) (displacement : Int) : Instruction :=
  { address, mnemonic := "mov", effect := .move, writes := [into], reads := [base]
    operands := [.register into,
      .memory { base := some base, displacement, size := some into.width }] }

/-- The control code in `ecx`, compared with what is given, and a branch on the outcome. -/
def dispatch (against : Operand) : List Instruction :=
  [load 0x1000 (r64 "rax") (r64 "rdx") 0xb8,
    load 0x1007 (r32 "ecx" "rcx") (r64 "rax") 0x18,
    { address := 0x100a, mnemonic := "cmp", effect := .compare, writesFlags := true
      operands := [.register (r32 "ecx" "rcx"), against], reads := [r32 "ecx" "rcx"] },
    { address := 0x1010, mnemonic := "je", flow := .branch (some 0x1013)
      condition := some .equal },
    { address := 0x1012, mnemonic := "ret", flow := .ret },
    { address := 0x1013, mnemonic := "ret", flow := .ret }]

def entry : Facts := { registers := [("rdx", .irp)] }

end Sample

open Sample in
/-- `cmp ecx,ecx` settles the branch behind it, and no longer does with a label in between: both
edges are walked, and the compare is reported as a test nobody could name. -/
theorem label_behind_settled_flags :
    let listing := dispatch (.register (r32 "ecx" "rcx"))
    let split := (graph listing).split 0 3
    let whole := simulate 0 (graph listing) listing entry .x64 none (fun _ => true)
    (graph listing).blocks[0]? = some { start := 0, stop := 4, successors := [1, 2] } ∧
      (∀ instruction ∈ listing, instruction.isPlain = true) ∧
      ∃ onward, (simulate 0 split listing entry .x64 none fun _ => true).out = [(3, onward)] ∧
        let second := simulate 3 split listing onward .x64 none (fun _ => true)
        whole.out.map Prod.fst = [2] ∧ second.out.map Prod.fst = [1, 2] ∧
          whole.untracked = [] ∧ second.untracked = [0x100a] := by
  refine ⟨by decide, by decide, _, rfl, ?_⟩
  decide

open Sample in
theorem simulate_split_dispatch :
    let listing := dispatch (.immediate 0x222004)
    let split := (graph listing).split 0 3
    ∃ onward, (simulate 0 split listing entry .x64 none fun _ => true).out = [(3, onward)] ∧
      (simulate 3 split listing onward .x64 none fun _ => true).cases =
        [{ code := 0x222004, lands := 0x1013, site := 0x100a, proved := true }] := by
  have hdirect : ∀ last, (dispatch (.immediate 0x222004))[3]? = some last →
      last.flow ≠ .jmp none := by
    intro last hfound
    cases hfound
    decide
  have hunchained : entry.Unchained := by
    intro was hmember
    cases hmember
  obtain ⟨onward, hout, hcases, _⟩ := simulate_split (dispatch (.immediate 0x222004)) .x64 none
    (fun _ => true) entry 0 3 { start := 0, stop := 4, successors := [1, 2] } (by decide)
    (by decide) (by decide) hdirect (by decide) hunchained (by decide)
  exact ⟨onward, hout, hcases.trans (by decide)⟩

end WindbgMcp.Ioctl
