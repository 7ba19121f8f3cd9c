import WindbgMcp.CodeWalk.Walk
import Mathlib.Data.List.Chain

/-! The walk accounts for every executable byte exactly once.  One turn of its inner loop
moves the cursor over some bytes and puts exactly those into one row; the sections are
taken in address order, so that what one of them skips an earlier one has walked. -/
namespace WindbgMcp.CodeWalk
open WindbgMcp.Library WindbgMcp.Library.Program
open WindbgMcp.Walk (Halt)

def Scanned.contains (range : Scanned) (address : Nat) : Bool :=
  range.start ≤ address && address < range.start + range.bytes

namespace Covered

def count (covered : Covered) (address : Nat) : Nat :=
  (covered.scanned ++ covered.unreadable).countP fun range => range.contains address

def complete (covered : Covered) : Prop := covered.halted = none ∧ covered.capHit = false

end Covered

def Instruction.covers (instruction : Instruction) (address : Nat) : Prop :=
  instruction.address ≤ address ∧ address < instruction.address + instructionLen instruction

/-- Whole instructions that follow each other from `address` on. -/
def Consecutive : Nat → List Instruction → Prop
  | _, [] => True
  | address, instruction :: rest =>
    instruction.address = address ∧ 0 < instructionLen instruction ∧
      Consecutive (address + instructionLen instruction) rest

def blockEnd (address : Nat) (block : List Instruction) : Nat :=
  address + (block.map instructionLen).sum

/-- What a decoder may answer when asked for `want` bytes: nothing, or whole consecutive
instructions from the address on that end within them. -/
def WholeBlock (address want : Nat) : Option (List Instruction) → Prop
  | none => True
  | some block => Consecutive address block ∧ blockEnd address block ≤ address + want

def Whole : Event Answer → Prop
  | ⟨.decode address want, decoded⟩ => WholeBlock address want decoded
  | ⟨.halt, _⟩ | ⟨.visit _, _⟩ => True

def Decoded (trace : List (Event Answer)) (address : Nat) : Prop :=
  ∃ start want block, ⟨.decode start want, some block⟩ ∈ trace ∧
    ∃ instruction ∈ block, instruction.covers address

def stepOf : Event Answer → Option Step
  | ⟨.visit step, _⟩ => some step
  | ⟨.halt, _⟩ | ⟨.decode _ _, _⟩ => none

def steps (trace : List (Event Answer)) : List Step := trace.filterMap stepOf

def Step.instruction : Step → Option Instruction
  | atInstruction instruction _ => some instruction
  | breaks => none

def visited (trace : List (Event Answer)) : List Instruction :=
  (steps trace).filterMap Step.instruction

def Adjacent : Step → Step → Prop
  | .atInstruction instruction _, .atInstruction next _ =>
    next.address = instruction.address + instructionLen instruction
  | _, _ => True

/-! ## One turn -/

/-- What one turn of the loop over a section's windows can do. -/
inductive Turned (name : String) (stop : Nat) (cursor : Cursor) :
    List (Event Answer) → Cursor ⊕ Ended → Prop
  | walked (h : stop ≤ cursor.position) : Turned name stop cursor [] (.inr ⟨cursor, false⟩)
  | halted (why : Halt) :
    Turned name stop cursor [⟨.halt, some why⟩] (.inr ⟨cursor.haltedBy name why, true⟩)
  | capped : Turned name stop cursor [⟨.halt, none⟩] (.inr ⟨cursor.capped name, true⟩)
  | retry (hposition : cursor.position < stop) (hbudget : 0 < cursor.budget)
      (hretry : cursor.retrying = false) :
    Turned name stop cursor
      [⟨.halt, none⟩, ⟨.decode cursor.position (cursor.want stop), none⟩]
      (.inl { cursor with
        retryingUntil := some (saturatingAdd cursor.position (cursor.want stop)) })
  | skipped (hposition : cursor.position < stop) (hbudget : 0 < cursor.budget) :
    Turned name stop cursor
      [⟨.halt, none⟩, ⟨.decode cursor.position (cursor.want stop), none⟩, ⟨.visit .breaks, ()⟩]
      (.inl (cursor.skip name (cursor.want stop)))
  | emptied (hposition : cursor.position < stop) :
    Turned name stop cursor
      [⟨.halt, none⟩, ⟨.decode cursor.position (cursor.want stop), some []⟩,
        ⟨.visit .breaks, ()⟩]
      (.inr ⟨cursor.abandon name stop, false⟩)
  | stuck (block : List Instruction) (hblock : block ≠ []) (hposition : cursor.position < stop)
      (hnext : saturatingAdd (block.getLast hblock).address
        (instructionLen (block.getLast hblock)) ≤ cursor.position) :
    Turned name stop cursor
      (⟨.halt, none⟩ :: ⟨.decode cursor.position (cursor.want stop), some block⟩ ::
        block.map fun instruction => ⟨.visit (.atInstruction instruction name), ()⟩)
      (.inr ⟨cursor.abandon name stop, false⟩)
  | advanced (block : List Instruction) (hblock : block ≠ []) (hposition : cursor.position < stop)
      (hbudget : 0 < cursor.budget)
      (hnext : cursor.position < saturatingAdd (block.getLast hblock).address
        (instructionLen (block.getLast hblock))) :
    Turned name stop cursor
      (⟨.halt, none⟩ :: ⟨.decode cursor.position (cursor.want stop), some block⟩ ::
        block.map fun instruction => ⟨.visit (.atInstruction instruction name), ()⟩)
      (.inl (cursor.advance (cursor.want stop)
        (saturatingAdd (block.getLast hblock).address (instructionLen (block.getLast hblock)))))

theorem visitAll_runs {name : String} {block : List Instruction} :
    ∀ {trace : List (Event Answer)} {result : Except Unit Unit},
      Runs (visitAll name block) trace result →
      ∃ value, result = .ok value ∧
        trace = block.map fun instruction => ⟨.visit (.atInstruction instruction name), ()⟩ := by
  induction block with
  | nil =>
    intro trace result h
    obtain ⟨rfl, rfl⟩ := runs_done_iff.mp h
    exact ⟨(), rfl, rfl⟩
  | cons instruction block ih =>
    intro trace result h
    obtain ⟨answer, rest, rfl, hrest⟩ := runs_ask_iff.mp h
    obtain ⟨value, rfl, rfl⟩ := ih hrest
    exact ⟨value, rfl, rfl⟩

section
variable {name : String} {stop : Nat} {cursor : Cursor} {trace : List (Event Answer)}
  {result : Except Unit (Cursor ⊕ Ended)} {outcome : Cursor ⊕ Ended}

theorem takeBlock_runs {block : List Instruction} (hblock : block ≠ [])
    (hposition : cursor.position < stop) (hbudget : 0 < cursor.budget)
    (h : Runs (takeBlock name stop cursor block (block.getLast hblock)) trace result) :
    ∃ outcome, result = .ok outcome ∧ Turned name stop cursor
      (⟨.halt, none⟩ :: ⟨.decode cursor.position (cursor.want stop), some block⟩ :: trace)
      outcome := by
  obtain ⟨_, front, back, rfl, rfl, hrest⟩ := runs_bind_returns h fun _ _ hvisit =>
    visitAll_runs hvisit
  dsimp only at hrest
  split at hrest
  · obtain ⟨rfl, rfl⟩ := runs_done_iff.mp hrest
    rw [List.append_nil]
    exact ⟨_, rfl, .stuck block hblock hposition (by omega)⟩
  · obtain ⟨rfl, rfl⟩ := runs_done_iff.mp hrest
    rw [List.append_nil]
    exact ⟨_, rfl, .advanced block hblock hposition hbudget (by omega)⟩

theorem windowTurn_runs (h : Runs (windowTurn name stop cursor) trace result) :
    ∃ outcome, result = .ok outcome ∧ Turned name stop cursor trace outcome := by
  unfold windowTurn at h
  split at h
  swap
  · rename_i hposition
    obtain ⟨rfl, rfl⟩ := runs_done_iff.mp h
    exact ⟨_, rfl, .walked (by omega)⟩
  rename_i hposition
  obtain ⟨halted, rest, rfl, hpolled⟩ := runs_ask_iff.mp h
  cases halted with
  | some why =>
    obtain ⟨rfl, rfl⟩ := runs_done_iff.mp hpolled
    exact ⟨_, rfl, .halted why⟩
  | none =>
    dsimp only at hpolled
    split at hpolled
    · obtain ⟨rfl, rfl⟩ := runs_done_iff.mp hpolled
      exact ⟨_, rfl, .capped⟩
    rename_i hbudget
    have hbudget : 0 < cursor.budget := by omega
    split at hpolled
    · obtain ⟨rfl, rfl⟩ := runs_done_iff.mp hpolled
      exact ⟨_, rfl, .capped⟩
    obtain ⟨decoded, rest, rfl, hdecoded⟩ := runs_ask_iff.mp hpolled
    split at hdecoded
    · split at hdecoded
      · rename_i hretry
        simp only [Bool.and_eq_true, Bool.not_eq_true'] at hretry
        obtain ⟨rfl, rfl⟩ := runs_done_iff.mp hdecoded
        exact ⟨_, rfl, .retry hposition hbudget hretry.1⟩
      · obtain ⟨_, rest, rfl, hvisited⟩ := runs_ask_iff.mp hdecoded
        obtain ⟨rfl, rfl⟩ := runs_done_iff.mp hvisited
        exact ⟨_, rfl, .skipped hposition hbudget⟩
    · obtain ⟨_, rest, rfl, hvisited⟩ := runs_ask_iff.mp hdecoded
      obtain ⟨rfl, rfl⟩ := runs_done_iff.mp hvisited
      exact ⟨_, rfl, .emptied hposition⟩
    · exact takeBlock_runs _ hposition hbudget hdecoded

theorem close_position (cursor : Cursor) (name : String) :
    (cursor.close name).position = cursor.position := by
  unfold Cursor.close
  split
  · split <;> rfl
  · rfl

theorem want_pos (hposition : cursor.position < stop) (hbudget : 0 < cursor.budget) :
    0 < cursor.want stop := by
  have hwindow : 0 < cursor.window := by
    unfold Cursor.window
    split
    · split
      · simp only [page]
        omega
      · rename_i hlong
        simp only [maxInstruction] at hlong
        omega
    · decide
  unfold Cursor.want
  omega

theorem want_le (cursor : Cursor) (stop : Nat) : cursor.want stop ≤ stop - cursor.position := by
  unfold Cursor.want
  omega

theorem left_le (cursor : Cursor) (stop : Nat) :
    cursor.left stop ≤ 2 * (stop - cursor.position) + 1 ∧
      2 * (stop - cursor.position) ≤ cursor.left stop := by
  unfold Cursor.left
  split <;> omega

theorem Turned.left_lt (h : Turned name stop cursor trace outcome) (hstop : stop ≤ u64Max)
    {next : Cursor} (hnext : outcome = .inl next) : next.left stop < cursor.left stop := by
  have hbefore := left_le cursor stop
  have hafter := left_le next stop
  cases h with
  | walked | halted | capped | emptied | stuck => cases hnext
  | retry hposition hbudget hretry =>
    cases hnext
    have hwant := want_pos hposition hbudget
    have hle := want_le cursor stop
    have hretrying : cursor.position < saturatingAdd cursor.position (cursor.want stop) := by
      unfold saturatingAdd
      omega
    simp [Cursor.left, Cursor.retrying, hretrying] at hretry ⊢
    simp [hretry]
  | skipped hposition hbudget =>
    cases hnext
    have hwant := want_pos hposition hbudget
    have hle := want_le cursor stop
    have hmoved : (cursor.skip name (cursor.want stop)).position =
        cursor.position + cursor.want stop := by
      simp only [Cursor.skip, close_position, saturatingAdd]
      omega
    omega
  | advanced block hblock hposition hbudget hend =>
    cases hnext
    have hmoved : (cursor.advance (cursor.want stop) (saturatingAdd (block.getLast hblock).address
      (instructionLen (block.getLast hblock)))).position = saturatingAdd
        (block.getLast hblock).address (instructionLen (block.getLast hblock)) := rfl
    omega

end

/-! ## Whole blocks -/

namespace Consecutive
variable {block : List Instruction}

theorem bounds : ∀ {address : Nat}, Consecutive address block →
    ∀ instruction ∈ block, address ≤ instruction.address ∧
      0 < instructionLen instruction ∧
      instruction.address + instructionLen instruction ≤ blockEnd address block := by
  induction block with
  | nil => simp
  | cons first block ih =>
    intro address h instruction hinstruction
    obtain ⟨rfl, hlength, hrest⟩ := h
    have hend : blockEnd first.address (first :: block) =
        blockEnd (first.address + instructionLen first) block := by
      simp [blockEnd, Nat.add_assoc]
    rw [hend]
    apply (List.mem_cons.mp hinstruction).elim
    · rintro rfl
      exact ⟨Nat.le_refl _, hlength, Nat.le_add_right _ _⟩
    · intro hmem
      have hlater := ih hrest instruction hmem
      exact ⟨by omega, hlater.2⟩

theorem covered : ∀ {address : Nat}, Consecutive address block →
    ∀ {byte : Nat}, address ≤ byte → byte < blockEnd address block →
      ∃ instruction ∈ block, instruction.covers byte := by
  induction block with
  | nil =>
    intro address _ byte hle hlt
    simp only [blockEnd, List.map_nil, List.sum_nil] at hlt
    omega
  | cons first block ih =>
    intro address h byte hle hlt
    obtain ⟨rfl, hlength, hrest⟩ := h
    by_cases hfirst : byte < first.address + instructionLen first
    · exact ⟨first, List.mem_cons_self, hle, hfirst⟩
    · have hend : byte < blockEnd (first.address + instructionLen first) block := by
        simpa [blockEnd, Nat.add_assoc] using hlt
      obtain ⟨instruction, hmem, hcovers⟩ := ih hrest (by omega) hend
      exact ⟨instruction, List.mem_cons_of_mem _ hmem, hcovers⟩

theorem last : ∀ {address : Nat}, Consecutive address block → (hblock : block ≠ []) →
    (block.getLast hblock).address + instructionLen (block.getLast hblock) =
      blockEnd address block := by
  induction block with
  | nil => simp
  | cons first block ih =>
    intro address h hblock
    obtain ⟨rfl, hlength, hrest⟩ := h
    by_cases hone : block = []
    · subst hone
      simp [blockEnd]
    · rw [List.getLast_cons hone, ih hrest hone]
      simp [blockEnd, Nat.add_assoc]

theorem increasing : ∀ {address : Nat}, Consecutive address block →
    block.Pairwise fun instruction next => instruction.address < next.address := by
  induction block with
  | nil => simp
  | cons first block ih =>
    intro address h
    obtain ⟨rfl, hlength, hrest⟩ := h
    refine List.pairwise_cons.mpr ⟨?_, ih hrest⟩
    intro instruction hmem
    have hbound := (bounds hrest instruction hmem).1
    omega

theorem chained {name : String} : ∀ {address : Nat}, Consecutive address block →
    (block.map fun instruction => Step.atInstruction instruction name).IsChain Adjacent := by
  induction block with
  | nil => simp
  | cons first block ih =>
    intro address h
    obtain ⟨rfl, hlength, hrest⟩ := h
    cases block with
    | nil => simp
    | cons second block =>
      rw [List.map_cons, List.map_cons]
      exact List.isChain_cons_cons.mpr ⟨hrest.1, ih hrest⟩

end Consecutive

/-! ## Counting rows -/

theorem miss_count (covered : Covered) (range : Scanned) (address : Nat) :
    (covered.miss range).count address =
      covered.count address + if range.contains address then 1 else 0 := by
  simp [Covered.count, Covered.miss, List.countP_append, Nat.add_assoc, List.countP_cons]

def runCount (run : Option (Nat × Nat)) (address : Nat) : Nat :=
  run.elim 0 fun span => if span.1 ≤ address ∧ address < span.1 + span.2 then 1 else 0

theorem close_count (cursor : Cursor) (name : String) (address : Nat) :
    (cursor.close name).covered.count address =
      cursor.covered.count address + runCount cursor.run address := by
  unfold Cursor.close
  split
  · rename_i start bytes hrun
    rw [hrun]
    split
    · simp [Covered.count, List.countP_append, runCount, Scanned.contains, List.countP_cons]
      omega
    · rename_i hbytes
      have hnone : ¬(start ≤ address ∧ address < start + bytes) := by omega
      simp [runCount, hnone]
  · rename_i hrun
    simp [runCount, hrun]

theorem close_of_run_none {cursor : Cursor} (h : cursor.run = none) (name : String) :
    cursor.close name = cursor := by
  simp [Cursor.close, h]

theorem close_run (cursor : Cursor) (name : String) : (cursor.close name).run = none := by
  unfold Cursor.close
  split
  · split <;> rfl
  · assumption

theorem close_complete (cursor : Cursor) (name : String) :
    (cursor.close name).covered.complete ↔ cursor.covered.complete := by
  unfold Cursor.close
  split
  · split <;> rfl
  · rfl

structure Told (covered : Covered) (trace : List (Event Answer)) : Prop where
  decoded : ∀ range ∈ covered.scanned, ∀ address, range.contains address → Decoded trace address
  chained : (steps trace).IsChain Adjacent
  increasing : (visited trace).Pairwise fun instruction next => instruction.address < next.address

/-- The addresses in exactly one row are the marked ones, and everything visited is
behind the frontier.  Rows beyond the image are not counted. -/
structure Settled (limit : Nat) (marked : Nat → Prop) (frontier : Nat) (covered : Covered)
    (trace : List (Event Answer)) : Prop where
  counted : ∀ address < limit,
    (marked address → covered.count address = 1) ∧ (¬marked address → covered.count address = 0)
  below : ∀ address, marked address → address < frontier
  told : Told covered trace
  behind : ∀ instruction ∈ visited trace, instruction.address < frontier

theorem steps_append (before trace : List (Event Answer)) :
    steps (before ++ trace) = steps before ++ steps trace := List.filterMap_append

theorem visited_append (before trace : List (Event Answer)) :
    visited (before ++ trace) = visited before ++ visited trace := by
  simp [visited, steps_append]

theorem Decoded.mono {before : List (Event Answer)} {address : Nat} (h : Decoded before address)
    (trace : List (Event Answer)) : Decoded (before ++ trace) address := by
  obtain ⟨start, want, block, hmem, hcovers⟩ := h
  exact ⟨start, want, block, List.mem_append_left _ hmem, hcovers⟩

section
variable {limit frontier : Nat} {marked marked' : Nat → Prop} {covered covered' : Covered}
  {before trace : List (Event Answer)}

theorem Told.quiet (h : Told covered before) (hscanned : covered'.scanned = covered.scanned)
    (hsteps : ∀ step ∈ steps trace, step = .breaks) : Told covered' (before ++ trace) := by
  have hvisited : visited trace = [] := by
    apply List.filterMap_eq_nil_iff.mpr
    intro step hstep
    rw [hsteps step hstep]
    rfl
  refine ⟨?_, ?_, ?_⟩
  · rw [hscanned]
    intro range hrange address hcontains
    exact (h.decoded range hrange address hcontains).mono trace
  · rw [steps_append]
    refine List.isChain_append.mpr ⟨h.chained, ?_, ?_⟩
    · rw [List.eq_replicate_of_mem hsteps]
      exact List.isChain_replicate_of_rel _ trivial
    · intro step _ next hnext
      rw [hsteps next (List.mem_of_mem_head? hnext)]
      cases step <;> exact trivial
  · rw [visited_append, hvisited, List.append_nil]
    exact h.increasing

theorem Settled.extend (h : Settled limit marked frontier covered before) {next : Nat}
    (hnext : frontier ≤ next)
    (hcount : ∀ address, covered'.count address =
      covered.count address + if frontier ≤ address ∧ address < next then 1 else 0)
    (htold : Told covered' (before ++ trace))
    (hbehind : ∀ instruction ∈ visited trace, instruction.address < next)
    (hmarked : ∀ address, marked' address ↔
      marked address ∨ (frontier ≤ address ∧ address < next)) :
    Settled limit marked' next covered' (before ++ trace) where
  counted := by
    intro address haddress
    rw [hcount, hmarked]
    obtain ⟨hone, hzero⟩ := h.counted address haddress
    by_cases hold : marked address
    · have hbelow := h.below address hold
      rw [hone hold, if_neg (by omega)]
      simp [hold]
    · rw [hzero hold]
      by_cases hnew : frontier ≤ address ∧ address < next
      · simp [hnew]
      · simp [hold, hnew]
  below := by
    intro address hmark
    rcases (hmarked address).mp hmark with hold | hnew
    · exact Nat.lt_of_lt_of_le (h.below address hold) hnext
    · exact hnew.2
  told := htold
  behind := by
    intro instruction hinstruction
    rw [visited_append] at hinstruction
    rcases List.mem_append.mp hinstruction with hold | hnew
    · exact Nat.lt_of_lt_of_le (h.behind instruction hold) hnext
    · exact hbehind instruction hnew

/-- A row beyond the image, or no row at all, and calls that hand over no instruction. -/
theorem Settled.keep (h : Settled limit marked frontier covered before)
    (hcount : ∀ address < limit, covered'.count address = covered.count address)
    (hscanned : covered'.scanned = covered.scanned) {next : Nat} (hnext : frontier ≤ next)
    (hsteps : ∀ step ∈ steps trace, step = .breaks)
    (hmarked : ∀ address, marked' address ↔ marked address) :
    Settled limit marked' next covered' (before ++ trace) where
  counted := by
    intro address haddress
    rw [hcount address haddress, hmarked]
    exact h.counted address haddress
  below := by
    intro address hmark
    exact Nat.lt_of_lt_of_le (h.below address ((hmarked address).mp hmark)) hnext
  told := h.told.quiet hscanned hsteps
  behind := by
    intro instruction hinstruction
    rw [visited_append] at hinstruction
    rcases List.mem_append.mp hinstruction with hold | hnew
    · exact Nat.lt_of_lt_of_le (h.behind instruction hold) hnext
    · obtain ⟨step, hstep, hfound⟩ := List.mem_filterMap.mp hnew
      rw [hsteps step hstep] at hfound
      cases hfound

end

/-! ## One section -/

/-- The loop over the windows of a section that is walked from `start` on, over bytes
that are not yet `marked`. -/
structure InLoop (limit : Nat) (marked : Nat → Prop) (start stop : Nat) (name : String)
    (cursor : Cursor) (before : List (Event Answer)) : Prop where
  settled : Settled limit
    (fun address => marked address ∨ (start ≤ address ∧ address < cursor.position))
    cursor.position (cursor.close name).covered before
  above : start ≤ cursor.position
  within : cursor.position ≤ max start stop
  run : ∀ first bytes, cursor.run = some (first, bytes) → first + bytes = cursor.position
  continues : ∀ instruction section_, (steps before).getLast? =
    some (.atInstruction instruction section_) →
      instruction.address + instructionLen instruction = cursor.position
  complete : cursor.covered.complete

/-- The section was walked to its end or given up, or the walk stopped. -/
structure AfterLoop (limit : Nat) (marked : Nat → Prop) (start stop : Nat) (name : String)
    (ended : Ended) (before : List (Event Answer)) : Prop where
  told : ended.stopped = true →
    Told ended.cursor.covered before ∧ ¬ended.cursor.covered.complete
  settled : ended.stopped = false →
    Settled limit (fun address => marked address ∨ (start ≤ address ∧ address < stop))
      (max start stop) (ended.cursor.close name).covered before ∧
    (ended.cursor.close name).covered.complete

section
variable {limit start stop : Nat} {marked : Nat → Prop} {name : String} {cursor : Cursor}
  {before : List (Event Answer)}

theorem skip_close (cursor : Cursor) (name : String) (want : Nat) :
    ((cursor.skip name want).close name).covered =
      (cursor.close name).covered.miss ⟨name, cursor.position, want⟩ := by
  have hrun : (cursor.skip name want).run = none := close_run cursor name
  rw [close_of_run_none hrun]
  simp only [Cursor.skip, close_position]

theorem abandon_close (cursor : Cursor) (name : String) (stop : Nat) :
    ((cursor.abandon name stop).close name).covered =
      (cursor.close name).covered.miss ⟨name, cursor.position, stop - cursor.position⟩ := by
  have hrun : (cursor.abandon name stop).run = none := close_run cursor name
  rw [close_of_run_none hrun]
  simp only [Cursor.abandon, close_position]

theorem contains_range (name : String) (first bytes address : Nat) :
    (Scanned.contains ⟨name, first, bytes⟩ address = true) ↔
      (first ≤ address ∧ address < first + bytes) := by
  simp [Scanned.contains]

theorem Settled.missed {frontier bytes : Nat} {marked' : Nat → Prop} {covered : Covered}
    {trace : List (Event Answer)} (h : Settled limit marked frontier covered before)
    (hsteps : ∀ step ∈ steps trace, step = .breaks)
    (hmarked : ∀ address, marked' address ↔
      marked address ∨ (frontier ≤ address ∧ address < frontier + bytes)) :
    Settled limit marked' (frontier + bytes) (covered.miss ⟨name, frontier, bytes⟩)
      (before ++ trace) := by
  refine h.extend (Nat.le_add_right _ _) ?_ (h.told.quiet rfl hsteps) ?_ hmarked
  · intro address
    simp only [miss_count, contains_range]
  · intro instruction hinstruction
    obtain ⟨step, hstep, hfound⟩ := List.mem_filterMap.mp hinstruction
    rw [hsteps step hstep] at hfound
    cases hfound

theorem marked_upto {position next : Nat} (habove : start ≤ position) (hnext : position ≤ next)
    (address : Nat) :
    (marked address ∨ (start ≤ address ∧ address < next)) ↔
      (marked address ∨ (start ≤ address ∧ address < position)) ∨
        (position ≤ address ∧ address < next) := by
  by_cases hmarked : marked address
  · simp [hmarked]
  · simp only [hmarked, false_or]
    omega

theorem InLoop.abandoned (h : InLoop limit marked start stop name cursor before)
    (hposition : cursor.position < stop) {trace : List (Event Answer)}
    (hsteps : ∀ step ∈ steps trace, step = .breaks) :
    AfterLoop limit marked start stop name ⟨cursor.abandon name stop, false⟩
      (before ++ trace) where
  told := nofun
  settled := by
    intro _
    have habove := h.above
    have hstop : cursor.position + (stop - cursor.position) = stop := by omega
    refine ⟨?_, ?_⟩
    · rw [Nat.max_eq_right (by omega), abandon_close]
      have hmissed : Settled limit (fun address => marked address ∨ (start ≤ address ∧ address < stop))
          (cursor.position + (stop - cursor.position))
          ((cursor.close name).covered.miss ⟨name, cursor.position, stop - cursor.position⟩)
          (before ++ trace) := by
        apply h.settled.missed hsteps
        rw [hstop]
        exact marked_upto h.above (Nat.le_of_lt hposition)
      rw [hstop] at hmissed
      exact hmissed
    · rw [close_complete]
      exact (close_complete cursor name).mpr h.complete

/-- The loop condition fails: the cursor stands at the end, or never stood before it. -/
theorem InLoop.walked (h : InLoop limit marked start stop name cursor before)
    (hposition : stop ≤ cursor.position) :
    AfterLoop limit marked start stop name ⟨cursor, false⟩ before where
  told := nofun
  settled := by
    intro _
    refine ⟨?_, (close_complete cursor name).mpr h.complete⟩
    have habove := h.above
    have hwithin := h.within
    have hkept : Settled limit (fun address => marked address ∨ (start ≤ address ∧ address < stop))
        (max start stop) (cursor.close name).covered (before ++ []) := by
      apply h.settled.keep (fun _ _ => rfl) rfl h.within (by simp [steps])
      intro address
      apply or_congr_right
      omega
    rw [List.append_nil] at hkept
    exact hkept

theorem InLoop.retried (h : InLoop limit marked start stop name cursor before) (until_ : Option Nat)
    {trace : List (Event Answer)} (hsteps : steps trace = []) :
    InLoop limit marked start stop name { cursor with retryingUntil := until_ }
      (before ++ trace) := by
  have hclose : ({ cursor with retryingUntil := until_ }.close name).covered =
      (cursor.close name).covered := by
    unfold Cursor.close
    cases cursor.run with
    | none => rfl
    | some run =>
      dsimp only
      split <;> rfl
  refine ⟨?_, h.above, h.within, h.run, ?_, h.complete⟩
  · rw [hclose]
    exact h.settled.keep (fun _ _ => rfl) rfl (Nat.le_refl _) (by simp [hsteps]) fun _ => Iff.rfl
  · rw [steps_append, hsteps, List.append_nil]
    exact h.continues

theorem haltedBy_covered (cursor : Cursor) (name : String) (why : Halt) :
    (cursor.haltedBy name why).covered = { (cursor.close name).covered with halted := some why } := by
  unfold Cursor.haltedBy Cursor.close
  cases cursor.run with
  | none => rfl
  | some run =>
    dsimp only
    split <;> rfl

theorem capped_covered (cursor : Cursor) (name : String) :
    (cursor.capped name).covered = { (cursor.close name).covered with capHit := true } := by
  unfold Cursor.capped Cursor.close
  cases cursor.run with
  | none => rfl
  | some run =>
    dsimp only
    split <;> rfl

theorem InLoop.skipped (h : InLoop limit marked start stop name cursor before)
    (hposition : cursor.position < stop) (hstop : stop ≤ u64Max) {trace : List (Event Answer)}
    (hsteps : ∀ step ∈ steps trace, step = .breaks) (htrace : steps trace ≠ []) :
    InLoop limit marked start stop name (cursor.skip name (cursor.want stop))
      (before ++ trace) := by
  have hwant := want_le cursor stop
  have habove := h.above
  have hmoved : (cursor.skip name (cursor.want stop)).position =
      cursor.position + cursor.want stop := by
    simp only [Cursor.skip, close_position, saturatingAdd]
    omega
  refine ⟨?_, by omega, by omega, ?_, ?_, (close_complete cursor name).mpr h.complete⟩
  · rw [hmoved, skip_close]
    apply h.settled.missed hsteps
    exact marked_upto h.above (Nat.le_add_right _ _)
  · intro first bytes hrun
    have hnone : (cursor.skip name (cursor.want stop)).run = none := close_run cursor name
    rw [hnone] at hrun
    cases hrun
  · intro instruction section_ hlast
    rw [steps_append, List.getLast?_append_of_ne_nil _ htrace] at hlast
    cases hsteps _ (List.mem_of_getLast? hlast)

theorem advance_count (cursor : Cursor) (name : String) (want next : Nat)
    (hrun : ∀ first bytes, cursor.run = some (first, bytes) → first + bytes = cursor.position)
    (hnext : cursor.position ≤ next) (hwant : next ≤ cursor.position + want) (address : Nat) :
    ((cursor.advance want next).close name).covered.count address =
      (cursor.close name).covered.count address +
        if cursor.position ≤ address ∧ address < next then 1 else 0 := by
  have htaken : min (next - cursor.position) want = next - cursor.position := by omega
  rw [close_count, close_count]
  simp only [Cursor.advance, htaken, Nat.add_assoc]
  congr 1
  cases hopen : cursor.run with
  | none =>
    simp only [runCount, Option.elim]
    rw [show cursor.position + (next - cursor.position) = next by omega]
    omega
  | some run =>
    have hposition := hrun run.1 run.2 hopen
    simp only [runCount, Option.elim]
    split_ifs <;> omega

theorem advance_decoded (h : InLoop limit marked start stop name cursor before)
    {block : List Instruction} {want : Nat} {trace : List (Event Answer)}
    (hblock : Consecutive cursor.position block)
    (hwant : blockEnd cursor.position block ≤ cursor.position + want)
    (hdecoded : ⟨.decode cursor.position want, some block⟩ ∈ trace) :
    ∀ range ∈ ((cursor.advance want (blockEnd cursor.position block)).close name).covered.scanned,
      ∀ address, range.contains address → Decoded (before ++ trace) address := by
  have htaken : min (blockEnd cursor.position block - cursor.position) want =
      blockEnd cursor.position block - cursor.position := by omega
  have hle : cursor.position ≤ blockEnd cursor.position block := Nat.le_add_right _ _
  have hnew : ∀ address, cursor.position ≤ address → address < blockEnd cursor.position block →
      Decoded (before ++ trace) address := by
    intro address hposition hend
    exact ⟨_, _, block, List.mem_append_right _ hdecoded, hblock.covered hposition hend⟩
  have hold := h.settled.told.decoded
  intro range hrange address hcontains
  cases hopen : cursor.run with
  | none =>
    simp only [Cursor.close, hopen] at hold
    simp only [Cursor.advance, Cursor.close, hopen, htaken] at hrange
    split at hrange
    · rcases List.mem_append.mp hrange with hmem | hlast
      · exact (hold range hmem address hcontains).mono trace
      · rw [List.mem_singleton.mp hlast, contains_range] at hcontains
        exact hnew address hcontains.1 (by omega)
    · exact (hold range hrange address hcontains).mono trace
  | some run =>
    obtain ⟨first, bytes⟩ := run
    have hposition := h.run first bytes hopen
    simp only [Cursor.close, hopen] at hold
    simp only [Cursor.advance, Cursor.close, hopen, htaken] at hrange
    split at hrange
    · rcases List.mem_append.mp hrange with hmem | hlast
      · apply Decoded.mono
        apply hold range _ address hcontains
        split
        · exact List.mem_append_left _ hmem
        · exact hmem
      · rw [List.mem_singleton.mp hlast, contains_range] at hcontains
        by_cases hwalked : address < cursor.position
        · apply Decoded.mono
          apply hold ⟨name, first, bytes⟩ _ address
          · rw [contains_range]
            omega
          · rw [if_pos (by omega)]
            simp
        · exact hnew address (by omega) (by omega)
    · apply Decoded.mono
      apply hold range _ address hcontains
      split
      · exact List.mem_append_left _ hrange
      · exact hrange

theorem steps_visits (name : String) (block : List Instruction) :
    steps (block.map fun instruction => ⟨.visit (.atInstruction instruction name), ()⟩) =
      block.map fun instruction => Step.atInstruction instruction name := by
  simp [steps, stepOf, List.filterMap_map, Function.comp_def]

theorem visited_visits (name : String) (block : List Instruction) :
    (block.map fun instruction => Step.atInstruction instruction name).filterMap
      Step.instruction = block := by
  simp [Step.instruction, List.filterMap_map, Function.comp_def]

theorem InLoop.advanced (h : InLoop limit marked start stop name cursor before)
    {block : List Instruction} (hne : block ≠ []) (hposition : cursor.position < stop)
    {trace : List (Event Answer)} (hblock : Consecutive cursor.position block)
    (hwant : blockEnd cursor.position block ≤ cursor.position + cursor.want stop)
    (hdecoded : ⟨.decode cursor.position (cursor.want stop), some block⟩ ∈ trace)
    (hsteps : steps trace = block.map fun instruction => Step.atInstruction instruction name) :
    InLoop limit marked start stop name
      (cursor.advance (cursor.want stop) (blockEnd cursor.position block)) (before ++ trace) := by
  have hle : cursor.position ≤ blockEnd cursor.position block := Nat.le_add_right _ _
  have hstop := want_le cursor stop
  have habove := h.above
  have hvisited : visited trace = block := by
    rw [visited, hsteps, visited_visits]
  have hmoved : (cursor.advance (cursor.want stop) (blockEnd cursor.position block)).position =
      blockEnd cursor.position block := rfl
  refine ⟨?_, by omega, by omega, ?_, ?_, h.complete⟩
  · rw [hmoved]
    refine h.settled.extend hle (advance_count cursor name _ _ h.run hle hwant) ?_ ?_
      (marked_upto h.above hle)
    · refine ⟨advance_decoded h hblock hwant hdecoded, ?_, ?_⟩
      · rw [steps_append, hsteps]
        refine List.isChain_append.mpr ⟨h.settled.told.chained, hblock.chained, ?_⟩
        intro step hstep next hnext
        obtain ⟨first, rest, rfl⟩ := List.exists_cons_of_ne_nil hne
        simp only [List.map_cons, List.head?_cons, Option.mem_def, Option.some.injEq] at hnext
        subst hnext
        cases step with
        | breaks => exact trivial
        | atInstruction instruction section_ =>
          have hlast := h.continues instruction section_ hstep
          exact hblock.1.trans hlast.symm
      · rw [visited_append, hvisited]
        refine List.pairwise_append.mpr ⟨h.settled.told.increasing, hblock.increasing, ?_⟩
        intro instruction hinstruction next hnext
        have hbehind := h.settled.behind instruction hinstruction
        have hahead := (hblock.bounds next hnext).1
        omega
    · rw [hvisited]
      intro instruction hinstruction
      have hbounds := hblock.bounds instruction hinstruction
      omega
  · intro first bytes hrun
    have htaken : min (blockEnd cursor.position block - cursor.position) (cursor.want stop) =
        blockEnd cursor.position block - cursor.position := by omega
    rw [hmoved]
    simp only [Cursor.advance, htaken] at hrun
    cases hopen : cursor.run with
    | none =>
      simp only [hopen, Option.some.injEq, Prod.mk.injEq] at hrun
      omega
    | some run =>
      have hcontiguous := h.run run.1 run.2 hopen
      simp only [hopen, Option.some.injEq, Prod.mk.injEq] at hrun
      omega
  · intro instruction section_ hlast
    rw [steps_append, hsteps, List.getLast?_append_of_ne_nil _ (by simpa using hne),
      List.getLast?_map, List.getLast?_eq_some_getLast hne] at hlast
    cases hlast
    rw [hmoved, hblock.last hne]

theorem saturatingAdd_of_le {value other : Nat} (h : value + other ≤ u64Max) :
    saturatingAdd value other = value + other := Nat.min_eq_left h

theorem Turned.keeps {trace : List (Event Answer)} {outcome : Cursor ⊕ Ended}
    (h : Turned name stop cursor trace outcome) (hstop : stop ≤ u64Max)
    (hinside : InLoop limit marked start stop name cursor before)
    (hwhole : ∀ event ∈ trace, Whole event) :
    (∀ next, outcome = .inl next →
      InLoop limit marked start stop name next (before ++ trace)) ∧
    (∀ ended, outcome = .inr ended →
      AfterLoop limit marked start stop name ended (before ++ trace)) := by
  cases h with
  | walked hposition =>
    refine ⟨nofun, ?_⟩
    rintro _ ⟨⟩
    rw [List.append_nil]
    exact hinside.walked hposition
  | halted why =>
    refine ⟨nofun, ?_⟩
    rintro _ ⟨⟩
    refine ⟨fun _ => ⟨?_, ?_⟩, nofun⟩
    · apply hinside.settled.told.quiet
      · rw [haltedBy_covered]
      · simp [steps, stepOf]
    · rw [haltedBy_covered]
      exact fun hcomplete => absurd hcomplete.1 (by simp)
  | capped =>
    refine ⟨nofun, ?_⟩
    rintro _ ⟨⟩
    refine ⟨fun _ => ⟨?_, ?_⟩, nofun⟩
    · apply hinside.settled.told.quiet
      · rw [capped_covered]
      · simp [steps, stepOf]
    · rw [capped_covered]
      exact fun hcomplete => absurd hcomplete.2 (by simp)
  | retry hposition hbudget hretry =>
    refine ⟨?_, nofun⟩
    rintro _ ⟨⟩
    exact hinside.retried _ (by simp [steps, stepOf])
  | skipped hposition hbudget =>
    refine ⟨?_, nofun⟩
    rintro _ ⟨⟩
    exact hinside.skipped hposition hstop (by simp [steps, stepOf]) (by simp [steps, stepOf])
  | emptied hposition =>
    refine ⟨nofun, ?_⟩
    rintro _ ⟨⟩
    exact hinside.abandoned hposition (by simp [steps, stepOf])
  | stuck block hblock hposition hnext =>
    -- whole instructions advance
    have hanswer : WholeBlock cursor.position (cursor.want stop) (some block) :=
      hwhole ⟨.decode cursor.position (cursor.want stop), some block⟩ (by simp)
    have hend := hanswer.1.last hblock
    have hbounds := hanswer.1.bounds _ (List.getLast_mem hblock)
    have hwant := want_le cursor stop
    have hle := hanswer.2
    rw [saturatingAdd_of_le (by omega)] at hnext
    omega
  | advanced block hblock hposition hbudget hnext =>
    refine ⟨?_, nofun⟩
    rintro _ ⟨⟩
    have hanswer : WholeBlock cursor.position (cursor.want stop) (some block) :=
      hwhole ⟨.decode cursor.position (cursor.want stop), some block⟩ (by simp)
    have hend := hanswer.1.last hblock
    have hwant := want_le cursor stop
    have hle := hanswer.2
    rw [saturatingAdd_of_le (by omega), hend]
    apply hinside.advanced hblock hposition hanswer.1 hanswer.2
    · simp
    · simp only [steps, List.filterMap_cons, stepOf]
      exact steps_visits name block

theorem walkWindows_runs {trace : List (Event Answer)} {result : Except Unit Ended}
    (h : Runs (walkWindows name stop cursor) trace result) (hstop : stop ≤ u64Max)
    (hstart : (∀ event ∈ before, Whole event) →
      InLoop limit marked start stop name cursor before) :
    ∃ ended, result = .ok ended ∧ ((∀ event ∈ before ++ trace, Whole event) →
      AfterLoop limit marked start stop name ended (before ++ trace)) := by
  apply runs_loop
    (fun cursor trace => (∀ event ∈ trace, Whole event) →
      InLoop limit marked start stop name cursor trace)
    (fun ended trace => (∀ event ∈ trace, Whole event) →
      AfterLoop limit marked start stop name ended trace) ?_ before hstart h
  intro cursor before trace result hinside hturn
  obtain ⟨outcome, rfl, hturned⟩ := windowTurn_runs hturn
  refine ⟨outcome, rfl, ?_, ?_⟩
  · intro next hnext
    refine ⟨hturned.left_lt hstop hnext, ?_⟩
    intro hwhole
    obtain ⟨hbefore, htrace⟩ := List.forall_mem_append.mp hwhole
    exact (hturned.keeps hstop (hinside hbefore) htrace).1 next hnext
  · intro ended hended hwhole
    obtain ⟨hbefore, htrace⟩ := List.forall_mem_append.mp hwhole
    exact (hturned.keeps hstop (hinside hbefore) htrace).2 ended hended

end

/-! ## The sections -/

/-- What `checked_va` answers for a span of the image.  The walk relies on no more: an
address it hands out is that of the span, which then lies within the image, and it hands
one out for a span inside the image that does not run off the address space. -/
structure ChecksVa (image : Image) (checkedVa : Nat → Nat → Option Nat) : Prop where
  address : ∀ rva length va, checkedVa rva length = some va →
    va = image.base + rva ∧ va ≤ u64Max ∧ rva + length ≤ image.sizeOfImage
  inside : ∀ rva length, rva < image.sizeOfImage → rva + length ≤ image.sizeOfImage →
    image.base + rva + length ≤ u64Max → checkedVa rva length = some (image.base + rva)

namespace Image

def limit (image : Image) : Nat := saturatingAdd image.base image.sizeOfImage

def InSection (image : Image) (entry : Section) (address : Nat) : Prop :=
  image.base + entry.rva ≤ address ∧ address < image.base + entry.rva + entry.virtualSize ∧
    address < image.limit

def InCode (image : Image) (address : Nat) : Prop :=
  ∃ entry ∈ image.codeSections, image.InSection entry address

end Image

section
variable {image : Image} {checkedVa : Nat → Nat → Option Nat} {entry : Section} {start : Nat}

theorem not_inSection_of_none (h : ChecksVa image checkedVa) (hnone : checkedVa entry.rva 0 = none)
    (address : Nat) : ¬image.InSection entry address := by
  intro hin
  obtain ⟨hfirst, -, hlimit⟩ := hin
  have hbound : image.limit ≤ image.base + image.sizeOfImage ∧ image.limit ≤ u64Max := by
    unfold Image.limit saturatingAdd
    omega
  have hsome := h.inside entry.rva 0 (by omega) (by omega) (by omega)
  rw [hnone] at hsome
  cases hsome

theorem clamp_span (h : ChecksVa image checkedVa) (hstart : checkedVa entry.rva 0 = some start)
    (covered : Covered) (address : Nat) :
    start ≤ (clamp image checkedVa entry start covered).1 ∧
      (clamp image checkedVa entry start covered).1 ≤ image.limit ∧
      (image.InSection entry address ↔
        start ≤ address ∧ address < (clamp image checkedVa entry start covered).1) := by
  obtain ⟨rfl, hmax, hrva⟩ := h.address _ _ _ hstart
  unfold clamp Image.InSection Image.limit
  split
  · rename_i va hspan
    obtain ⟨-, -, hsize⟩ := h.address _ _ _ hspan
    simp only [saturatingAdd]
    omega
  · rename_i hspan
    have hcut : ¬(entry.rva < image.sizeOfImage ∧
        entry.rva + entry.virtualSize ≤ image.sizeOfImage ∧
        image.base + entry.rva + entry.virtualSize ≤ u64Max) := by
      rintro ⟨hinside, hsize, hspace⟩
      rw [h.inside _ _ hinside hsize hspace] at hspan
      cases hspan
    simp only [saturatingAdd]
    omega

theorem clamp_covered (h : ChecksVa image checkedVa) (hstart : checkedVa entry.rva 0 = some start)
    (covered : Covered) :
    (clamp image checkedVa entry start covered).2.scanned = covered.scanned ∧
      ((clamp image checkedVa entry start covered).2.complete ↔ covered.complete) ∧
      ∀ address < image.limit,
        (clamp image checkedVa entry start covered).2.count address = covered.count address := by
  obtain ⟨rfl, hmax, hrva⟩ := h.address _ _ _ hstart
  unfold clamp
  split
  · exact ⟨rfl, Iff.rfl, fun _ _ => rfl⟩
  · refine ⟨rfl, Iff.rfl, ?_⟩
    intro address hlimit
    have hbeyond : ¬(saturatingAdd (image.base + entry.rva) (image.sizeOfImage - entry.rva) ≤
        address) := by
      unfold Image.limit saturatingAdd at hlimit
      unfold saturatingAdd
      omega
    simp [miss_count, contains_range, hbeyond]

theorem outside_covered (covered : Covered) :
    ∀ address < image.limit, (outside image entry covered).count address =
      covered.count address := by
  intro address hlimit
  have hbeyond : ¬(saturatingAdd image.base image.sizeOfImage ≤ address) := by
    unfold Image.limit at hlimit
    omega
  simp [outside, miss_count, contains_range, hbeyond]

/-- Between two sections: what is behind `past` at or above a section still to come has
been walked. -/
structure Between (image : Image) (marked : Nat → Prop) (rest : List Section) (walked : Walked)
    (before : List (Event Answer)) : Prop where
  settled : Settled image.limit marked walked.past walked.covered before
  complete : walked.covered.complete
  reached : ∀ entry ∈ rest, ∀ address, image.base + entry.rva ≤ address →
    address < walked.past → marked address

section
variable {marked : Nat → Prop} {rest : List Section} {walked : Walked}
  {before : List (Event Answer)}

theorem Between.enter (h : Between image marked (entry :: rest) walked before)
    (hchecked : ChecksVa image checkedVa) (hstart : checkedVa entry.rva 0 = some start) :
    InLoop image.limit marked (max start walked.past)
      (clamp image checkedVa entry start walked.covered).1 entry.name
      { covered := (clamp image checkedVa entry start walked.covered).2
        budget := walked.budget
        position := max start walked.past }
      (before ++ [⟨.visit .breaks, ()⟩]) := by
  obtain ⟨hscanned, hcomplete, hcount⟩ := clamp_covered hchecked hstart walked.covered
  refine ⟨?_, Nat.le_refl _, Nat.le_max_left _ _, nofun, ?_, hcomplete.mpr h.complete⟩
  · apply h.settled.keep hcount hscanned (Nat.le_max_right _ _) (by simp [steps, stepOf])
    intro address
    constructor
    · rintro (hmarked | hempty)
      · exact hmarked
      · exact absurd hempty.1 (Nat.not_le.mpr hempty.2)
    · exact Or.inl
  · intro instruction section_ hlast
    rw [steps_append, List.getLast?_append_of_ne_nil _ (by simp [steps, stepOf])] at hlast
    cases hlast

theorem Between.passBy (h : Between image marked (entry :: rest) walked before) :
    Between image marked rest { walked with covered := outside image entry walked.covered }
      before := by
  have hkept : Settled image.limit marked walked.past (outside image entry walked.covered)
      (before ++ []) :=
    h.settled.keep (outside_covered walked.covered) rfl (Nat.le_refl _) (by simp [steps])
      fun _ => Iff.rfl
  rw [List.append_nil] at hkept
  exact ⟨hkept, h.complete, fun other hother => h.reached other (List.mem_cons_of_mem _ hother)⟩

theorem Between.leave {ended : Ended} {trace : List (Event Answer)}
    (h : Between image marked (entry :: rest) walked before)
    (hsorted : ∀ other ∈ rest, entry.rva ≤ other.rva)
    (hchecked : ChecksVa image checkedVa) (hstart : checkedVa entry.rva 0 = some start)
    (hended : AfterLoop image.limit marked (max start walked.past)
      (clamp image checkedVa entry start walked.covered).1 entry.name ended (before ++ trace))
    (hgoes : ended.stopped = false) :
    Between image (fun address => marked address ∨ image.InSection entry address) rest
      ⟨(ended.cursor.close entry.name).covered, (ended.cursor.close entry.name).budget,
        max walked.past (clamp image checkedVa entry start walked.covered).1⟩
      (before ++ trace) := by
  obtain ⟨hsettled, hcomplete⟩ := hended.settled hgoes
  have hspan := clamp_span hchecked hstart walked.covered
  obtain ⟨hbase, -, -⟩ := hchecked.address _ _ _ hstart
  refine ⟨?_, hcomplete, ?_⟩
  · have hkept : Settled image.limit
        (fun address => marked address ∨ image.InSection entry address)
        (max walked.past (clamp image checkedVa entry start walked.covered).1)
        (ended.cursor.close entry.name).covered (before ++ trace ++ []) := by
      apply hsettled.keep (fun _ _ => rfl) rfl _ (by simp [steps])
      · intro address
        rw [(hspan address).2.2]
        constructor
        · rintro (hmarked | hin)
          · exact Or.inl hmarked
          · by_cases hpast : address < walked.past
            · exact Or.inl (h.reached entry List.mem_cons_self address (by omega) hpast)
            · exact Or.inr ⟨by omega, hin.2⟩
        · rintro (hmarked | hin)
          · exact Or.inl hmarked
          · exact Or.inr ⟨by omega, hin.2⟩
      · have hle := (hspan 0).1
        omega
    rw [List.append_nil] at hkept
    exact hkept
  · intro other hother address hfirst hpast
    have hrva := hsorted other hother
    by_cases hold : address < walked.past
    · exact Or.inl (h.reached other (List.mem_cons_of_mem _ hother) address hfirst hold)
    · refine Or.inr ((hspan address).2.2.mpr ⟨by omega, ?_⟩)
      simp only at hpast
      omega

end

theorem walkSections_runs (hchecked : ChecksVa image checkedVa) {rest : List Section} :
    ∀ {marked : Nat → Prop} {walked : Walked} {before trace : List (Event Answer)}
      {result : Except Unit Covered},
      Runs (walkSections image checkedVa rest walked) trace result →
      rest.Pairwise (fun entry other => entry.rva ≤ other.rva) →
      ((∀ event ∈ before, Whole event) → Between image marked rest walked before) →
      ∃ covered, result = .ok covered ∧ ((∀ event ∈ before ++ trace, Whole event) →
        Told covered (before ++ trace) ∧ (covered.complete → ∀ address < image.limit,
          (marked address ∨ ∃ entry ∈ rest, image.InSection entry address) →
            covered.count address = 1)) := by
  induction rest with
  | nil =>
    intro marked walked before trace result h _ hbetween
    obtain ⟨rfl, rfl⟩ := runs_done_iff.mp h
    refine ⟨_, rfl, ?_⟩
    intro hwhole
    rw [List.append_nil] at hwhole ⊢
    refine ⟨(hbetween hwhole).settled.told, ?_⟩
    intro _ address hlimit hmarked
    exact ((hbetween hwhole).settled.counted address hlimit).1 (hmarked.resolve_right (by simp))
  | cons entry rest ih =>
    intro marked walked before trace result h hsorted hbetween
    obtain ⟨hfirst, hsorted⟩ := List.pairwise_cons.mp hsorted
    simp only [walkSections] at h
    split at h
    · -- the row cap
      obtain ⟨rfl, rfl⟩ := runs_done_iff.mp h
      refine ⟨_, rfl, ?_⟩
      intro hwhole
      refine ⟨?_, fun hcomplete => absurd hcomplete.2 (by simp)⟩
      rw [List.append_nil] at hwhole
      exact (hbetween hwhole).settled.told.quiet rfl (by simp [steps])
    split at h
    · rename_i hnone
      have hnot := not_inSection_of_none hchecked hnone
      obtain ⟨covered, rfl, hcovered⟩ := ih h hsorted fun hwhole => (hbetween hwhole).passBy
      refine ⟨covered, rfl, ?_⟩
      intro hwhole
      refine ⟨(hcovered hwhole).1, ?_⟩
      intro hcomplete address hlimit hmarked
      apply (hcovered hwhole).2 hcomplete address hlimit
      simpa [hnot] using hmarked
    · rename_i start hstart
      obtain ⟨_, _, rfl, hvisited⟩ := runs_ask_iff.mp h
      have hspan := clamp_span hchecked hstart walked.covered
      have hstop : (clamp image checkedVa entry start walked.covered).1 ≤ u64Max :=
        Nat.le_trans (hspan 0).2.1 (Nat.min_le_right _ _)
      obtain ⟨ended, front, back, rfl, hended, hrest⟩ := runs_bind_returns hvisited
        fun _ _ hwindows => walkWindows_runs hwindows hstop fun hwhole =>
          (hbetween (List.forall_mem_append.mp hwhole).1).enter hchecked hstart
      have htrace : before ++ ⟨.visit .breaks, ()⟩ :: (front ++ back) =
          before ++ (⟨.visit .breaks, ()⟩ :: front) ++ back := by simp
      have hfront : before ++ (⟨.visit .breaks, ()⟩ :: front) =
          before ++ [⟨.visit .breaks, ()⟩] ++ front := by simp
      rw [htrace]
      rw [← hfront] at hended
      split at hrest
      · rename_i hstopped
        obtain ⟨rfl, rfl⟩ := runs_done_iff.mp hrest
        refine ⟨_, rfl, ?_⟩
        intro hwhole
        rw [List.append_nil] at hwhole ⊢
        obtain ⟨htold, hpartial⟩ := (hended hwhole).told hstopped
        exact ⟨htold, fun hcomplete => absurd hcomplete hpartial⟩
      · rename_i hgoes
        obtain ⟨covered, rfl, hcovered⟩ := ih hrest hsorted fun hwhole =>
          (hbetween (List.forall_mem_append.mp hwhole).1).leave hfirst hchecked hstart
            (hended hwhole) (by simpa using hgoes)
        refine ⟨covered, rfl, ?_⟩
        intro hwhole
        refine ⟨(hcovered hwhole).1, ?_⟩
        intro hcomplete address hlimit hmarked
        apply (hcovered hwhole).2 hcomplete address hlimit
        simpa [or_assoc] using hmarked

end

theorem between_start (image : Image) (rest : List Section) :
    Between image (fun _ => False) rest ⟨{}, maxScanBytes, 0⟩ [] := by
  refine ⟨⟨?_, by simp, ⟨by simp, by simp [steps], by simp [visited, steps]⟩, ?_⟩, ⟨rfl, rfl⟩, ?_⟩
  · intro address _
    exact ⟨False.elim, fun _ => rfl⟩
  · simp [visited, steps]
  · intro entry _ address _ hpast
    exact absurd hpast (Nat.not_lt_zero address)

theorem codeSections_sorted (image : Image) :
    (image.codeSections.mergeSort fun entry other =>
      decide (entry.rva ≤ other.rva)).Pairwise fun entry other => entry.rva ≤ other.rva := by
  have h : (image.codeSections.mergeSort fun entry other => decide (entry.rva ≤ other.rva)).Pairwise
      fun entry other => decide (entry.rva ≤ other.rva) = true := by
    apply List.pairwise_mergeSort
    · simp only [decide_eq_true_eq]
      omega
    · simp only [Bool.or_eq_true, decide_eq_true_eq]
      omega
  simpa using h

theorem execute_whole {σ α : Type} {host : σ → (query : Query) → Answer query × σ}
    (hdecoder : ∀ state address want,
      WholeBlock address want (host state (.decode address want)).1)
    (state : σ) (program : Walking α) :
    ∀ event ∈ (execute host state program).trace, Whole event := by
  apply execute_forall
  intro state asked
  cases asked with
  | halt => exact trivial
  | decode address want => exact hdecoder state address want
  | visit step => exact trivial

/-- The code walk accounts for every executable byte exactly once.  Whatever the decoder,
the halt poll and the visitor keep as their state, as long as the decoder answers with
whole consecutive instructions within what it was asked for: the walk ends, visits in
increasing order, reports as scanned only what was decoded, puts a break between two
instructions that are not adjacent, and, unless it was halted or capped, has each byte in
one row. -/
theorem walkCode_accounts {image : Image} {checkedVa : Nat → Nat → Option Nat}
    (hchecked : ChecksVa image checkedVa) {σ : Type}
    (host : σ → (query : Query) → Answer query × σ)
    (hdecoder : ∀ state address want,
      WholeBlock address want (host state (.decode address want)).1)
    (state : σ) :
    ∃ covered, (execute host state (walkCode image checkedVa)).result = .ok covered ∧
      (visited (execute host state (walkCode image checkedVa)).trace).Pairwise
        (fun instruction next => instruction.address < next.address) ∧
      (steps (execute host state (walkCode image checkedVa)).trace).IsChain Adjacent ∧
      (∀ range ∈ covered.scanned, ∀ address, range.contains address →
        Decoded (execute host state (walkCode image checkedVa)).trace address) ∧
      (covered.halted = none → covered.capHit = false →
        ∀ address, image.InCode address → covered.count address = 1) := by
  have hwhole := execute_whole hdecoder state (walkCode image checkedVa)
  obtain ⟨covered, hresult, hcovered⟩ := walkSections_runs hchecked
    (runs_execute host state (walkCode image checkedVa)) (codeSections_sorted image)
    fun _ => between_start image _
  rw [List.nil_append] at hcovered
  obtain ⟨htold, hcounted⟩ := hcovered hwhole
  refine ⟨covered, hresult, htold.increasing, htold.chained, htold.decoded, ?_⟩
  intro hhalted hcap address hcode
  obtain ⟨entry, hentry, hin⟩ := hcode
  exact hcounted ⟨hhalted, hcap⟩ address hin.2.2
    (Or.inr ⟨entry, (List.mergeSort_perm _ _).mem_iff.mpr hentry, hin⟩)

section Example

/-- `checked_va` with an image of two pages. -/
def exampleCheckedVa (rva length : Nat) : Option Nat :=
  if rva + length ≤ 0x2000 then some (0x10000 + rva) else none

def exampleImage : Image where
  base := 0x10000
  sizeOfImage := 0x2000
  codeSections := [⟨"PAGE", 0x1ffc, 0x10⟩]

def exampleHost (_ : Unit) : (query : Query) → Answer query × Unit
  | .halt => (none, ())
  | .visit _ => ((), ())
  | .decode address want => (if 2 ≤ want then some [⟨address, "6690"⟩] else none, ())

theorem exampleHost_whole (state : Unit) (address want : Nat) :
    WholeBlock address want (exampleHost state (.decode address want)).1 := by
  simp only [exampleHost]
  split
  · have hlength : instructionLen ⟨address, "6690"⟩ = 2 := by
      have hbytes : "6690".utf8ByteSize = 4 := by decide
      simp only [instructionLen, hbytes]
    refine ⟨⟨rfl, by omega, trivial⟩, ?_⟩
    simp only [blockEnd, List.map_cons, List.map_nil, List.sum_cons, List.sum_nil, hlength]
    omega
  · trivial

theorem exampleCheckedVa_checks : ChecksVa exampleImage exampleCheckedVa where
  address := by
    intro rva length va h
    simp only [exampleCheckedVa, Option.ite_none_right_eq_some, Option.some.injEq] at h
    obtain ⟨hsize, rfl⟩ := h
    refine ⟨rfl, ?_, hsize⟩
    simp only [u64Max]
    omega
  inside := by
    intro rva length _ hsize _
    exact if_pos hsize

/-- The cursor after `bytes` bytes of the section. -/
def exampleCursor (bytes : Nat) : Cursor where
  covered := ⟨[], [⟨"PAGE", 0x12000, 12⟩], none, false⟩
  budget := maxScanBytes - bytes
  position := 0x11ffc + bytes
  run := if bytes = 0 then none else some (0x11ffc, bytes)

theorem walkCode_accounts_oversized :
    ∃ covered, (execute exampleHost () (walkCode exampleImage exampleCheckedVa)).result =
        .ok covered ∧
      covered.scanned = [⟨"PAGE", 0x11ffc, 4⟩] ∧
      covered.unreadable = [⟨"PAGE", 0x12000, 12⟩] ∧
      ∀ address, exampleImage.InCode address → covered.count address = 1 := by
  obtain ⟨covered, hresult, -, -, -, hcounted⟩ :=
    walkCode_accounts exampleCheckedVa_checks exampleHost exampleHost_whole ()
  have hfirst : (execute exampleHost () (windowTurn "PAGE" 0x12000 (exampleCursor 0))).result =
      .ok (.inl (exampleCursor 2)) := by decide
  have hsecond : (execute exampleHost () (windowTurn "PAGE" 0x12000 (exampleCursor 2))).result =
      .ok (.inl (exampleCursor 4)) := by decide
  have hlast : (execute exampleHost () (windowTurn "PAGE" 0x12000 (exampleCursor 4))).result =
      .ok (.inr ⟨exampleCursor 4, false⟩) := by decide
  have hwindows : (execute exampleHost () (walkWindows "PAGE" 0x12000 (exampleCursor 0))).result =
      .ok ⟨exampleCursor 4, false⟩ := by
    unfold walkWindows
    rw [execute_loop_next _ hfirst (by decide), execute_loop_next _ hsecond (by decide),
      execute_loop_done _ hlast]
  have hvalue : (execute exampleHost () (walkCode exampleImage exampleCheckedVa)).result =
      .ok ⟨[⟨"PAGE", 0x11ffc, 4⟩], [⟨"PAGE", 0x12000, 12⟩], none, false⟩ := by
    unfold walkCode exampleImage
    rw [List.mergeSort_singleton]
    exact execute_bind_ok exampleHost _ hwindows
  rw [hvalue] at hresult
  cases hresult
  exact ⟨_, hvalue, rfl, rfl, hcounted rfl rfl⟩

end Example

end WindbgMcp.CodeWalk
