import Mathlib.Data.List.FinRange
import Mathlib.Logic.Relation
import WindbgMcp.Library.Collected
import WindbgMcp.Walk.Node

/-! The walk inside one function: a depth-first search over the listing of its
instructions that stops wherever the next instruction is not known. -/
namespace WindbgMcp.Driver

open Library (lastPlace)
open Walk (Halt)

/-- Where control goes behind an instruction; an indirect transfer names no target. -/
inductive Flow where
  | ret
  | trap
  | unreadable
  | unknown
  | jmp (target : Option Nat)
  | branch (target : Option Nat)
  | call (target : Option Nat)
  | fallthrough
deriving DecidableEq, Repr

structure Instruction where
  address : Nat
  flow : Flow
deriving DecidableEq, Repr

/-- Where the indirect jumps of a listing go, and why the answer may be short. -/
structure JumpTables where
  targets : List (Nat × List Nat)
  stopped : Option Halt
  bounded : Bool
deriving DecidableEq, Repr

def JumpTables.default : JumpTables := ⟨[], none, false⟩

def JumpTables.at (tables : JumpTables) (site : Nat) : List Nat :=
  (tables.targets.lookup site).getD []

def JumpTables.width (tables : JumpTables) : Nat :=
  tables.targets.foldr (fun entry width => entry.2.length + width) 2

theorem JumpTables.at_length_le (tables : JumpTables) (site : Nat) :
    (tables.at site).length + 2 ≤ tables.width := by
  rw [JumpTables.at, JumpTables.width]
  induction tables.targets with
  | nil => exact Nat.le_refl 2
  | cons entry targets ih =>
    rw [List.lookup_cons, List.foldr_cons]
    split
    · simp only [Option.getD_some]
      omega
    · omega

inductive EdgeKind where
  | call
  | jmp
deriving DecidableEq, Repr

structure Edge where
  site : Nat
  target : Nat
  kind : EdgeKind
deriving DecidableEq, Repr

structure FnWalk where
  reachable : List Nat
  external : List Edge
  blind : Nat
  unresolvedJumps : List Nat
deriving DecidableEq, Repr

def indexOf (block : List Instruction) (address : Nat) : Option (Fin block.length) :=
  lastPlace (fun insn => insn.address == address) block

structure WalkState (block : List Instruction) extends FnWalk where
  stack : List (Fin block.length)

namespace WalkState

variable {block : List Instruction}

def leave (site : Nat) (destination : Option Nat) (kind : EdgeKind) (state : WalkState block) :
    WalkState block :=
  match destination with
  | none => state
  | some target =>
    match indexOf block target with
    | some j => { state with stack := j :: state.stack }
    | none => { state with external := state.external ++ [⟨site, target, kind⟩] }

def pushNext (i : Fin block.length) (state : WalkState block) : WalkState block :=
  if h : i.val + 1 < block.length then { state with stack := ⟨i.val + 1, h⟩ :: state.stack }
  else state

def leaveAll (site : Nat) (targets : List Nat) (state : WalkState block) : WalkState block :=
  targets.foldl (fun state target => state.leave site (some target) .jmp) state

/-- Mark the instruction at `i`, which was taken off the stack. -/
def reach (i : Fin block.length) (stack : List (Fin block.length)) (state : WalkState block) :
    WalkState block :=
  { state with stack, reachable := (block.get i).address :: state.reachable }

def process (tables : JumpTables) (i : Fin block.length) (state : WalkState block) :
    WalkState block :=
  let insn := block.get i
  match insn.flow with
  | .ret | .trap => state
  | .unreadable | .unknown => { state with blind := state.blind + 1 }
  | .jmp (some target) => state.leave insn.address (some target) .jmp
  -- an indirect jump ends the path unless its table was resolved
  | .jmp none =>
    let targets := tables.at insn.address
    if targets.isEmpty then
      { state with unresolvedJumps := state.unresolvedJumps ++ [insn.address] }
    else state.leaveAll insn.address targets
  | .branch destination => (state.leave insn.address destination .jmp).pushNext i
  | .call destination => (state.leave insn.address destination .call).pushNext i
  | .fallthrough => state.pushNext i

@[simp] theorem leave_reachable (site : Nat) (destination : Option Nat) (kind : EdgeKind)
    (state : WalkState block) : (state.leave site destination kind).reachable = state.reachable := by
  cases destination with
  | none => rfl
  | some target =>
    simp only [leave]
    split <;> rfl

@[simp] theorem pushNext_reachable (i : Fin block.length) (state : WalkState block) :
    (state.pushNext i).reachable = state.reachable := by
  simp only [pushNext]
  split <;> rfl

@[simp] theorem leaveAll_reachable (site : Nat) (targets : List Nat) (state : WalkState block) :
    (state.leaveAll site targets).reachable = state.reachable := by
  induction targets generalizing state with
  | nil => rfl
  | cons target targets ih =>
    rw [leaveAll, List.foldl_cons]
    exact (ih _).trans (leave_reachable _ _ _ _)

@[simp] theorem process_reachable (tables : JumpTables) (i : Fin block.length)
    (state : WalkState block) : (state.process tables i).reachable = state.reachable := by
  simp only [process]
  split
  · rfl
  · rfl
  · rfl
  · rfl
  · exact leave_reachable _ _ _ _
  · split
    · rfl
    · exact leaveAll_reachable _ _ _
  · simp
  · simp
  · simp

def unreached (state : WalkState block) : List Instruction :=
  block.filter (·.address ∉ state.reachable)

theorem unreached_lt {state next : WalkState block} {i : Fin block.length}
    (hfresh : (block.get i).address ∉ state.reachable)
    (hnext : next.reachable = (block.get i).address :: state.reachable) :
    next.unreached.length < state.unreached.length := by
  have hfewer : next.unreached =
      state.unreached.filter (·.address ≠ (block.get i).address) := by
    simp [unreached, hnext, List.filter_filter]
  rw [hfewer, List.length_filter_lt_length_iff_exists]
  exact ⟨block.get i, by simpa [unreached] using hfresh, by simp⟩

theorem leave_stack_le (site : Nat) (destination : Option Nat) (kind : EdgeKind)
    (state : WalkState block) :
    (state.leave site destination kind).stack.length ≤ state.stack.length + 1 := by
  cases destination with
  | none => exact Nat.le_succ _
  | some target =>
    simp only [leave]
    split
    · exact Nat.le_refl _
    · exact Nat.le_succ _

theorem pushNext_stack_le (i : Fin block.length) (state : WalkState block) :
    (state.pushNext i).stack.length ≤ state.stack.length + 1 := by
  simp only [pushNext]
  split
  · exact Nat.le_refl _
  · exact Nat.le_succ _

theorem leaveAll_stack_le (site : Nat) (targets : List Nat) (state : WalkState block) :
    (state.leaveAll site targets).stack.length ≤ state.stack.length + targets.length := by
  induction targets generalizing state with
  | nil => exact Nat.le_refl _
  | cons target targets ih =>
    have hfirst := leave_stack_le site (some target) .jmp state
    have hrest := ih (state.leave site (some target) .jmp)
    simp only [leaveAll, List.foldl_cons, List.length_cons] at hrest ⊢
    omega

theorem process_stack_le (tables : JumpTables) (i : Fin block.length) (state : WalkState block) :
    (state.process tables i).stack.length ≤ state.stack.length + tables.width := by
  have hwidth := tables.at_length_le (block.get i).address
  have hsame : state.stack.length ≤ state.stack.length + tables.width := Nat.le_add_right _ _
  have hboth (destination : Option Nat) (kind : EdgeKind) :
      ((state.leave (block.get i).address destination kind).pushNext i).stack.length ≤
        state.stack.length + tables.width := by
    have hleave := leave_stack_le (block.get i).address destination kind state
    have hnext := pushNext_stack_le i (state.leave (block.get i).address destination kind)
    omega
  simp only [process]
  split
  · exact hsame
  · exact hsame
  · exact hsame
  · exact hsame
  · exact Nat.le_trans (leave_stack_le _ _ _ _) (by omega)
  · split
    · exact hsame
    · have hall := leaveAll_stack_le (block.get i).address (tables.at (block.get i).address) state
      omega
  · exact hboth _ _
  · exact hboth _ _
  · exact Nat.le_trans (pushNext_stack_le i state) (by omega)

/-- What is left to do: each instruction is processed once, and each processing
pushes no more than the width of the tables. -/
def remaining (tables : JumpTables) (state : WalkState block) : Nat :=
  state.unreached.length * tables.width + state.stack.length

theorem remaining_process_lt (tables : JumpTables) {state : WalkState block} {i : Fin block.length}
    {stack : List (Fin block.length)} (hstack : state.stack = i :: stack)
    (hfresh : (block.get i).address ∉ state.reachable) :
    ((state.reach i stack).process tables i).remaining tables < state.remaining tables := by
  have hfewer : ((state.reach i stack).process tables i).unreached.length <
      state.unreached.length :=
    unreached_lt hfresh (process_reachable _ _ _)
  have hpushed := process_stack_le tables i (state.reach i stack)
  have hwork := Nat.mul_le_mul_right tables.width (Nat.succ_le_of_lt hfewer)
  rw [Nat.succ_mul] at hwork
  change _ ≤ stack.length + tables.width at hpushed
  simp only [remaining, hstack, List.length_cons]
  omega

end WalkState

def walkLoop {block : List Instruction} (tables : JumpTables) (state : WalkState block) : FnWalk :=
  match _hstack : state.stack with
  | [] => state.toFnWalk
  | i :: stack =>
    if _hseen : (block.get i).address ∈ state.reachable then
      walkLoop tables { state with stack }
    else
      walkLoop tables ((state.reach i stack).process tables i)
termination_by state.remaining tables
decreasing_by
  · simp [WalkState.remaining, WalkState.unreached, _hstack]
  · exact WalkState.remaining_process_lt tables _hstack _hseen

/-- The instructions reachable from `start` inside one function, or nothing if no
instruction starts there. -/
def walkFunction (block : List Instruction) (start : Nat) (tables : JumpTables) : Option FnWalk :=
  (indexOf block start).map fun i => walkLoop tables ⟨⟨[], [], 0, []⟩, [i]⟩

end WindbgMcp.Driver
