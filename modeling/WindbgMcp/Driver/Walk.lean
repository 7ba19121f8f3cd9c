import WindbgMcp.Driver.Listing

/-! What the walk inside a function finds is reachable along the flow edges of its
listing, and what it reports as leaving the function leaves from there. -/
namespace WindbgMcp.Driver

open Relation

/-! ## Flow edges -/

/-- Where an instruction transfers control to: its own target, or a resolved one if
it is an indirect jump. -/
inductive Transfers (tables : JumpTables) (insn : Instruction) : Nat → EdgeKind → Prop where
  | jmp {target : Nat} (h : insn.flow = .jmp (some target)) : Transfers tables insn target .jmp
  | branch {target : Nat} (h : insn.flow = .branch (some target)) :
      Transfers tables insn target .jmp
  | call {target : Nat} (h : insn.flow = .call (some target)) : Transfers tables insn target .call
  | table {target : Nat} (h : insn.flow = .jmp none) (htarget : target ∈ tables.at insn.address) :
      Transfers tables insn target .jmp

def Flow.fallsThrough : Flow → Bool
  | .branch _ | .call _ | .fallthrough => true
  | _ => false

inductive FlowEdge (block : List Instruction) (tables : JumpTables) (i j : Fin block.length) :
    Prop where
  | next (h : (block.get i).flow.fallsThrough = true) (hnext : j.val = i.val + 1)
  | transfer (kind : EdgeKind) (h : Transfers tables (block.get i) (block.get j).address kind)

/-- An edge out of a listing, from the instruction at `i`. -/
structure Exits (block : List Instruction) (tables : JumpTables) (i : Fin block.length)
    (edge : Edge) : Prop where
  site : edge.site = (block.get i).address
  transfers : Transfers tables (block.get i) edge.target edge.kind
  outside : ∀ j : Fin block.length, (block.get j).address ≠ edge.target

section

variable {block : List Instruction} {tables : JumpTables} {start i : Fin block.length}

theorem indexOf_some {address : Nat} (h : indexOf block address = some i) :
    (block.get i).address = address := by
  simpa using Library.lastPlace_some h

theorem indexOf_none {address : Nat} (h : indexOf block address = none) (j : Fin block.length) :
    (block.get j).address ≠ address := by
  simpa using Library.lastPlace_none h j

structure Explored (tables : JumpTables) (start : Fin block.length) (state : WalkState block) :
    Prop where
  stack : ∀ i ∈ state.stack, ReflTransGen (FlowEdge block tables) start i
  reachable : ∀ address ∈ state.reachable, ∃ i, (block.get i).address = address ∧
    ReflTransGen (FlowEdge block tables) start i
  external : ∀ edge ∈ state.external, ∃ i, Exits block tables i edge ∧
    ReflTransGen (FlowEdge block tables) start i

theorem Explored.push {state : WalkState block} (h : Explored tables start state)
    {j : Fin block.length} (hj : ReflTransGen (FlowEdge block tables) start j) :
    Explored tables start { state with stack := j :: state.stack } := by
  refine ⟨?_, h.reachable, h.external⟩
  intro k hk
  rcases List.mem_cons.mp hk with rfl | hk
  · exact hj
  · exact h.stack k hk

theorem Explored.leave {state : WalkState block} (h : Explored tables start state)
    (hi : ReflTransGen (FlowEdge block tables) start i) {destination : Option Nat}
    {kind : EdgeKind}
    (htransfers : ∀ target, destination = some target →
      Transfers tables (block.get i) target kind) :
    Explored tables start (state.leave (block.get i).address destination kind) := by
  cases destination with
  | none => exact h
  | some target =>
    have htarget := htransfers target rfl
    simp only [WalkState.leave]
    split
    · rename_i j hindex
      refine h.push (hi.tail (.transfer kind ?_))
      rw [indexOf_some hindex]
      exact htarget
    · rename_i hindex
      refine ⟨h.stack, h.reachable, ?_⟩
      intro edge hedge
      rcases List.mem_append.mp hedge with hedge | hedge
      · exact h.external edge hedge
      · rw [List.mem_singleton.mp hedge]
        exact ⟨i, ⟨rfl, htarget, indexOf_none hindex⟩, hi⟩

theorem Explored.pushNext {state : WalkState block} (h : Explored tables start state)
    (hi : ReflTransGen (FlowEdge block tables) start i)
    (hfalls : (block.get i).flow.fallsThrough = true) :
    Explored tables start (state.pushNext i) := by
  simp only [WalkState.pushNext]
  split
  · exact h.push (hi.tail (.next hfalls rfl))
  · exact h

theorem Explored.leaveAll {state : WalkState block} (h : Explored tables start state)
    (hi : ReflTransGen (FlowEdge block tables) start i) {targets : List Nat}
    (htransfers : ∀ target ∈ targets, Transfers tables (block.get i) target .jmp) :
    Explored tables start (state.leaveAll (block.get i).address targets) := by
  induction targets generalizing state with
  | nil => exact h
  | cons target targets ih =>
    refine ih (h.leave hi ?_) fun other hother => htransfers other (List.mem_cons_of_mem _ hother)
    rintro _ ⟨⟩
    exact htransfers _ List.mem_cons_self

theorem Explored.process {state : WalkState block} (h : Explored tables start state)
    (hi : ReflTransGen (FlowEdge block tables) start i) :
    Explored tables start (state.process tables i) := by
  simp only [WalkState.process]
  split
  · exact h
  · exact h
  · exact ⟨h.stack, h.reachable, h.external⟩
  · exact ⟨h.stack, h.reachable, h.external⟩
  · rename_i target hflow
    refine h.leave hi ?_
    rintro _ ⟨⟩
    exact .jmp hflow
  · rename_i hflow
    split
    · exact ⟨h.stack, h.reachable, h.external⟩
    · exact h.leaveAll hi fun target htarget => .table hflow htarget
  · rename_i destination hflow
    refine (h.leave hi ?_).pushNext hi (by rw [hflow]; rfl)
    rintro target rfl
    exact .branch hflow
  · rename_i destination hflow
    refine (h.leave hi ?_).pushNext hi (by rw [hflow]; rfl)
    rintro target rfl
    exact .call hflow
  · rename_i hflow
    exact h.pushNext hi (by rw [hflow]; rfl)

theorem walkLoop_explored {state : WalkState block} (h : Explored tables start state) :
    ∃ stack, Explored tables start ⟨walkLoop tables state, stack⟩ := by
  fun_induction walkLoop tables state with
  | case1 state hstack => exact ⟨[], ⟨by simp, h.reachable, h.external⟩⟩
  | case2 state i stack hstack hseen ih =>
    refine ih ⟨fun k hk => h.stack k ?_, h.reachable, h.external⟩
    rw [hstack]
    exact List.mem_cons_of_mem _ hk
  | case3 state i stack hstack hseen ih =>
    have hi := h.stack i (by rw [hstack]; exact List.mem_cons_self)
    refine ih (Explored.process ⟨fun k hk => h.stack k ?_, ?_, h.external⟩ hi)
    · rw [hstack]
      exact List.mem_cons_of_mem _ hk
    · intro address haddress
      rcases List.mem_cons.mp haddress with rfl | haddress
      · exact ⟨i, rfl, hi⟩
      · exact h.reachable address haddress

end

/-! ## Segments of a path -/

/-- A listing walked from one of its instructions, with the tables it was walked with. -/
structure Segment where
  listing : List Instruction
  tables : JumpTables
  start : Nat

/-- The instruction at `i` is reachable from the start of the segment. -/
def Segment.Reaches (segment : Segment) (i : Fin segment.listing.length) : Prop :=
  ∃ first : Fin segment.listing.length, (segment.listing.get first).address = segment.start ∧
    ReflTransGen (FlowEdge segment.listing segment.tables) first i

def Segment.ReachesAddress (segment : Segment) (address : Nat) : Prop :=
  ∃ i, (segment.listing.get i).address = address ∧ segment.Reaches i

def Segment.Leaves (segment : Segment) (edge : Edge) : Prop :=
  ∃ i, Exits segment.listing segment.tables i edge ∧ segment.Reaches i

section

variable {block : List Instruction} {tables : JumpTables} {start : Nat} {walk : FnWalk}

theorem walkFunction_sound (h : walkFunction block start tables = some walk) :
    (∀ address ∈ walk.reachable, Segment.ReachesAddress ⟨block, tables, start⟩ address) ∧
      ∀ edge ∈ walk.external, Segment.Leaves ⟨block, tables, start⟩ edge := by
  obtain ⟨first, hfirst, rfl⟩ := Option.map_eq_some_iff.mp h
  have hstart := indexOf_some hfirst
  have hinitial : Explored tables first ⟨⟨[], [], 0, []⟩, [first]⟩ := by
    refine ⟨?_, by simp, by simp⟩
    intro i hi
    rw [List.mem_singleton.mp hi]
  obtain ⟨stack, hexplored⟩ := walkLoop_explored hinitial
  refine ⟨?_, ?_⟩
  · intro address haddress
    obtain ⟨i, hi, hreaches⟩ := hexplored.reachable address haddress
    exact ⟨i, hi, first, hstart, hreaches⟩
  · intro edge hedge
    obtain ⟨i, hexits, hreaches⟩ := hexplored.external edge hedge
    exact ⟨i, hexits, first, hstart, hreaches⟩

theorem walkFunction_isSome_iff (block : List Instruction) (start : Nat) (tables : JumpTables) :
    (walkFunction block start tables).isSome ↔ ∃ insn ∈ block, insn.address = start := by
  rw [walkFunction, Option.isSome_map]
  constructor
  · intro h
    obtain ⟨i, hi⟩ := Option.isSome_iff_exists.mp h
    exact ⟨block.get i, List.get_mem _ _, indexOf_some hi⟩
  · rintro ⟨insn, hinsn, rfl⟩
    obtain ⟨i, rfl⟩ := List.get_of_mem hinsn
    by_contra hnone
    exact indexOf_none (Option.not_isSome_iff_eq_none.mp hnone) i rfl

end

end WindbgMcp.Driver
