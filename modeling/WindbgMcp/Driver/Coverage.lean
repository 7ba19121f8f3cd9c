import WindbgMcp.Driver.Walk

/-! The walk inside a function misses nothing: every edge of an instruction it
processed leads to an instruction it reached, or is among those that leave. -/
namespace WindbgMcp.Driver

variable {block : List Instruction} {tables : JumpTables}

/-- The loop, from this state on, processes the instruction at an index.  Of several
instructions at one address only the first to be taken off the stack is. -/
inductive Processes (tables : JumpTables) : WalkState block → Fin block.length → Prop where
  | now {state : WalkState block} {i : Fin block.length} {stack : List (Fin block.length)}
      (hstack : state.stack = i :: stack) (hfresh : (block.get i).address ∉ state.reachable) :
      Processes tables state i
  | afterSeen {state : WalkState block} {i j : Fin block.length}
      {stack : List (Fin block.length)} (hstack : state.stack = i :: stack)
      (hseen : (block.get i).address ∈ state.reachable)
      (hrest : Processes tables { state with stack } j) : Processes tables state j
  | afterFresh {state : WalkState block} {i j : Fin block.length}
      {stack : List (Fin block.length)} (hstack : state.stack = i :: stack)
      (hfresh : (block.get i).address ∉ state.reachable)
      (hrest : Processes tables ((state.reach i stack).process tables i) j) :
      Processes tables state j

namespace WalkState

/-- What `leave` does with a destination: push where the listing has it, and else
record the edge. -/
theorem mem_leave_external {site : Nat} {destination : Option Nat} {kind : EdgeKind}
    {state : WalkState block} {edge : Edge} :
    edge ∈ (state.leave site destination kind).external ↔
      edge ∈ state.external ∨ ∃ target, destination = some target ∧
        indexOf block target = none ∧ edge = ⟨site, target, kind⟩ := by
  cases destination with
  | none => simp [leave]
  | some target =>
    simp only [leave]
    split
    case h_1 j hindex => simp [hindex]
    case h_2 hindex => simp [hindex]

theorem leave_stack_subset {site : Nat} {destination : Option Nat} {kind : EdgeKind}
    {state : WalkState block} {i : Fin block.length} (h : i ∈ state.stack) :
    i ∈ (state.leave site destination kind).stack := by
  cases destination with
  | none => exact h
  | some target =>
    simp only [leave]
    split
    · exact List.mem_cons_of_mem _ h
    · exact h

theorem mem_leave_stack (site : Nat) {target : Nat} (kind : EdgeKind) (state : WalkState block)
    {j : Fin block.length} (h : (block.get j).address = target) :
    ∃ k ∈ (state.leave site (some target) kind).stack, (block.get k).address = target := by
  simp only [leave]
  split
  case h_1 k hindex => exact ⟨k, List.mem_cons_self, indexOf_some hindex⟩
  case h_2 hindex => exact absurd h (indexOf_none hindex j)

theorem mem_leaveAll_external {site : Nat} {targets : List Nat} {edge : Edge} :
    ∀ state : WalkState block, edge ∈ (state.leaveAll site targets).external ↔
      edge ∈ state.external ∨ ∃ target ∈ targets,
        indexOf block target = none ∧ edge = ⟨site, target, .jmp⟩ := by
  induction targets with
  | nil => simp [leaveAll]
  | cons target targets ih =>
    intro state
    have hrest := ih (state.leave site (some target) .jmp)
    unfold leaveAll at hrest ⊢
    rw [List.foldl_cons, hrest, mem_leave_external]
    simp only [Option.some.injEq, List.mem_cons]
    grind

theorem leaveAll_stack_subset (site : Nat) (targets : List Nat) {i : Fin block.length} :
    ∀ {state : WalkState block}, i ∈ state.stack → i ∈ (state.leaveAll site targets).stack := by
  induction targets with
  | nil => exact fun h => h
  | cons target targets ih =>
    intro state h
    exact ih (leave_stack_subset h)

theorem mem_leaveAll_stack {site target : Nat} {targets : List Nat} {j : Fin block.length}
    (h : (block.get j).address = target) : ∀ {state : WalkState block}, target ∈ targets →
    ∃ k ∈ (state.leaveAll site targets).stack, (block.get k).address = target := by
  induction targets with
  | nil => exact fun hmem => absurd hmem List.not_mem_nil
  | cons first targets ih =>
    intro state hmem
    rcases List.mem_cons.mp hmem with rfl | hmem
    · obtain ⟨k, hk, haddress⟩ := mem_leave_stack site .jmp state h
      exact ⟨k, leaveAll_stack_subset site targets hk, haddress⟩
    · exact ih hmem

theorem pushNext_stack_subset {i j : Fin block.length} {state : WalkState block}
    (h : j ∈ state.stack) : j ∈ (state.pushNext i).stack := by
  simp only [pushNext]
  split
  · exact List.mem_cons_of_mem _ h
  · exact h

theorem mem_pushNext_stack {i j : Fin block.length} {state : WalkState block}
    (h : j.val = i.val + 1) : j ∈ (state.pushNext i).stack := by
  have hlt : i.val + 1 < block.length := by
    have := j.isLt
    omega
  simp only [pushNext, dif_pos hlt]
  have heq : j = ⟨i.val + 1, hlt⟩ := Fin.ext h
  rw [heq]
  exact List.mem_cons_self

@[simp] theorem pushNext_external (i : Fin block.length) (state : WalkState block) :
    (state.pushNext i).external = state.external := by
  simp only [pushNext]
  split <;> rfl

theorem indexOf_eq_none_iff {address : Nat} :
    indexOf block address = none ↔ ∀ j : Fin block.length, (block.get j).address ≠ address := by
  constructor
  · exact indexOf_none
  · intro habsent
    cases hindex : indexOf block address with
    | none => rfl
    | some j => exact absurd (indexOf_some hindex) (habsent j)

theorem exits_iff {i : Fin block.length} {edge : Edge} : Exits block tables i edge ↔
    ∃ target kind, Transfers tables (block.get i) target kind ∧ indexOf block target = none ∧
      edge = ⟨(block.get i).address, target, kind⟩ := by
  constructor
  · intro h
    exact ⟨edge.target, edge.kind, h.transfers, indexOf_eq_none_iff.mpr h.outside, by rw [← h.site]⟩
  · rintro ⟨target, kind, htransfers, hindex, rfl⟩
    exact ⟨rfl, htransfers, indexOf_eq_none_iff.mp hindex⟩

theorem transfers_iff {insn : Instruction} {target : Nat} {kind : EdgeKind} :
    Transfers tables insn target kind ↔
      match insn.flow with
      | .jmp (some destination) => target = destination ∧ kind = .jmp
      | .jmp none => target ∈ tables.at insn.address ∧ kind = .jmp
      | .branch destination => some target = destination ∧ kind = .jmp
      | .call destination => some target = destination ∧ kind = .call
      | _ => False := by
  constructor
  · intro h
    cases h <;> simp_all
  · intro h
    split at h
    case h_1 hflow =>
      obtain ⟨rfl, rfl⟩ := h
      exact .jmp hflow
    case h_2 hflow =>
      obtain ⟨htarget, rfl⟩ := h
      exact .table hflow htarget
    case h_3 hflow =>
      obtain ⟨rfl, rfl⟩ := h
      exact .branch hflow
    case h_4 hflow =>
      obtain ⟨rfl, rfl⟩ := h
      exact .call hflow
    case h_5 => exact h.elim

theorem mem_process_external {i : Fin block.length} {state : WalkState block} {edge : Edge} :
    edge ∈ (state.process tables i).external ↔
      edge ∈ state.external ∨ Exits block tables i edge := by
  rw [exits_iff]
  simp only [transfers_iff]
  unfold process
  cases hflow : (block.get i).flow with
  | ret | trap | unreadable | unknown =>
    simp only [hflow, false_and, exists_false, or_false]
  | «fallthrough» =>
    simp only [hflow, pushNext_external, false_and, exists_false, or_false]
  | jmp destination =>
    cases destination with
    | some target =>
      simp only [hflow, mem_leave_external]
      grind
    | none =>
      simp only [hflow]
      split
      case isTrue hempty =>
        rw [List.isEmpty_iff] at hempty
        simp only [hempty, List.not_mem_nil, false_and, exists_false, or_false]
      case isFalse =>
        rw [mem_leaveAll_external]
        grind
  | branch destination =>
    simp only [hflow, pushNext_external, mem_leave_external]
    grind
  | call destination =>
    simp only [hflow, pushNext_external, mem_leave_external]
    grind

theorem process_stack_subset {i k : Fin block.length} {state : WalkState block}
    (h : k ∈ state.stack) : k ∈ (state.process tables i).stack := by
  simp only [process]
  split
  · exact h
  · exact h
  · exact h
  · exact h
  · exact leave_stack_subset h
  · split
    · exact h
    · exact leaveAll_stack_subset _ _ h
  · exact pushNext_stack_subset (leave_stack_subset h)
  · exact pushNext_stack_subset (leave_stack_subset h)
  · exact pushNext_stack_subset h

theorem mem_process_stack {i j : Fin block.length} {state : WalkState block}
    (h : FlowEdge block tables i j) :
    ∃ k ∈ (state.process tables i).stack, (block.get k).address = (block.get j).address := by
  unfold process
  cases h with
  | next hfalls hnext =>
    refine ⟨j, ?_, rfl⟩
    cases hflow : (block.get i).flow with
    | ret | trap | unreadable | unknown | jmp =>
      rw [hflow] at hfalls
      cases hfalls
    | branch | call | «fallthrough» =>
      simp only [hflow]
      exact mem_pushNext_stack hnext
  | transfer kind htransfers =>
    rw [transfers_iff] at htransfers
    cases hflow : (block.get i).flow with
    | ret | trap | unreadable | unknown | «fallthrough» =>
      rw [hflow] at htransfers
      exact htransfers.elim
    | jmp destination =>
      rw [hflow] at htransfers
      cases destination with
      | some target =>
        obtain ⟨htarget, -⟩ := htransfers
        obtain ⟨k, hk, haddress⟩ := mem_leave_stack (block.get i).address .jmp state htarget
        simp only [hflow]
        exact ⟨k, hk, haddress.trans htarget.symm⟩
      | none =>
        have hne : (tables.at (block.get i).address).isEmpty = false := by
          rw [List.isEmpty_eq_false_iff_exists_mem]
          exact ⟨_, htransfers.1⟩
        simp only [hflow, hne]
        exact mem_leaveAll_stack rfl htransfers.1
    | branch destination =>
      rw [hflow] at htransfers
      obtain ⟨rfl, -⟩ := htransfers
      obtain ⟨k, hk, haddress⟩ := mem_leave_stack (block.get i).address .jmp state rfl
      simp only [hflow]
      exact ⟨k, pushNext_stack_subset hk, haddress⟩
    | call destination =>
      rw [hflow] at htransfers
      obtain ⟨rfl, -⟩ := htransfers
      obtain ⟨k, hk, haddress⟩ := mem_leave_stack (block.get i).address .call state rfl
      simp only [hflow]
      exact ⟨k, pushNext_stack_subset hk, haddress⟩

end WalkState

/-- What the loop comes to: it reaches the addresses on its stack and those of the
instructions it processes, along every edge of theirs within the listing, and
records every edge of theirs that leaves it. -/
structure Covers (tables : JumpTables) (state : WalkState block) (walk : FnWalk) : Prop where
  reachable : ∀ address, address ∈ walk.reachable ↔ address ∈ state.reachable ∨
    ∃ i, Processes tables state i ∧ (block.get i).address = address
  external : ∀ edge, edge ∈ walk.external ↔ edge ∈ state.external ∨
    ∃ i, Processes tables state i ∧ Exits block tables i edge
  stack : ∀ i ∈ state.stack, (block.get i).address ∈ walk.reachable
  flow : ∀ i, Processes tables state i → ∀ j, FlowEdge block tables i j →
    (block.get j).address ∈ walk.reachable

theorem processes_of_empty {state : WalkState block} (hstack : state.stack = [])
    (i : Fin block.length) : ¬Processes tables state i := by
  intro h
  cases h <;> simp_all

theorem processes_of_seen {state : WalkState block} {i j : Fin block.length}
    {stack : List (Fin block.length)} (hstack : state.stack = i :: stack)
    (hseen : (block.get i).address ∈ state.reachable) :
    Processes tables state j ↔ Processes tables { state with stack } j := by
  constructor
  · intro h
    cases h with
    | now hstack' hfresh =>
      obtain ⟨rfl, rfl⟩ := List.cons.inj (hstack.symm.trans hstack')
      exact absurd hseen hfresh
    | afterSeen hstack' hseen' hrest =>
      obtain ⟨rfl, rfl⟩ := List.cons.inj (hstack.symm.trans hstack')
      exact hrest
    | afterFresh hstack' hfresh hrest =>
      obtain ⟨rfl, rfl⟩ := List.cons.inj (hstack.symm.trans hstack')
      exact absurd hseen hfresh
  · exact .afterSeen hstack hseen

theorem processes_of_fresh {state : WalkState block} {i j : Fin block.length}
    {stack : List (Fin block.length)} (hstack : state.stack = i :: stack)
    (hfresh : (block.get i).address ∉ state.reachable) :
    Processes tables state j ↔
      j = i ∨ Processes tables ((state.reach i stack).process tables i) j := by
  constructor
  · intro h
    cases h with
    | now hstack' hfresh' =>
      obtain ⟨rfl, rfl⟩ := List.cons.inj (hstack.symm.trans hstack')
      exact .inl rfl
    | afterSeen hstack' hseen hrest =>
      obtain ⟨rfl, rfl⟩ := List.cons.inj (hstack.symm.trans hstack')
      exact absurd hseen hfresh
    | afterFresh hstack' hfresh' hrest =>
      obtain ⟨rfl, rfl⟩ := List.cons.inj (hstack.symm.trans hstack')
      exact .inr hrest
  · rintro (rfl | hrest)
    · exact .now hstack hfresh
    · exact .afterFresh hstack hfresh hrest

theorem walkLoop_covers (state : WalkState block) :
    Covers tables state (walkLoop tables state) := by
  fun_induction walkLoop tables state with
  | case1 state hstack =>
    refine ⟨?_, ?_, ?_, ?_⟩
    · simp [processes_of_empty hstack]
    · simp [processes_of_empty hstack]
    · simp [hstack]
    · exact fun i hi => absurd hi (processes_of_empty hstack i)
  | case2 state i stack hstack hseen ih =>
    refine ⟨?_, ?_, ?_, ?_⟩
    · intro address
      simp only [processes_of_seen hstack hseen]
      exact ih.reachable address
    · intro edge
      simp only [processes_of_seen hstack hseen]
      exact ih.external edge
    · intro j hj
      rw [hstack] at hj
      rcases List.mem_cons.mp hj with rfl | hj
      · exact (ih.reachable _).mpr (.inl hseen)
      · exact ih.stack j hj
    · intro j hj
      exact ih.flow j ((processes_of_seen hstack hseen).mp hj)
  | case3 state i stack hstack hfresh ih =>
    have hi : (block.get i).address ∈
        (walkLoop tables ((state.reach i stack).process tables i)).reachable := by
      apply (ih.reachable _).mpr
      left
      rw [WalkState.process_reachable]
      exact List.mem_cons_self
    refine ⟨?_, ?_, ?_, ?_⟩
    · intro address
      rw [ih.reachable address, WalkState.process_reachable]
      simp only [processes_of_fresh hstack hfresh, WalkState.reach, List.mem_cons]
      grind
    · intro edge
      rw [ih.external edge, WalkState.mem_process_external]
      simp only [processes_of_fresh hstack hfresh, WalkState.reach]
      grind
    · intro j hj
      rw [hstack] at hj
      rcases List.mem_cons.mp hj with rfl | hj
      · exact hi
      · exact ih.stack j (WalkState.process_stack_subset hj)
    · intro j hj k hedge
      rcases (processes_of_fresh hstack hfresh).mp hj with rfl | hrest
      · obtain ⟨pushed, hpushed, haddress⟩ := WalkState.mem_process_stack hedge
        rw [← haddress]
        exact ih.stack pushed hpushed
      · exact ih.flow j hrest k hedge

/-- The instruction at `i` is one that the walk of the segment processes. -/
def Segment.Explores (segment : Segment) (i : Fin segment.listing.length) : Prop :=
  ∃ first, indexOf segment.listing segment.start = some first ∧
    Processes segment.tables ⟨⟨[], [], 0, []⟩, [first]⟩ i

theorem walkFunction_covers {start : Nat} {walk : FnWalk}
    (h : walkFunction block start tables = some walk) :
    (∀ address, address ∈ walk.reachable ↔
      ∃ i, Segment.Explores ⟨block, tables, start⟩ i ∧ (block.get i).address = address) ∧
    (∀ edge, edge ∈ walk.external ↔
      ∃ i, Segment.Explores ⟨block, tables, start⟩ i ∧ Exits block tables i edge) ∧
    start ∈ walk.reachable ∧
    ∀ i, Segment.Explores ⟨block, tables, start⟩ i → ∀ j, FlowEdge block tables i j →
      (block.get j).address ∈ walk.reachable := by
  obtain ⟨first, hfirst, rfl⟩ := Option.map_eq_some_iff.mp h
  have hcovers : Covers tables (⟨⟨[], [], 0, []⟩, [first]⟩ : WalkState block) _ :=
    walkLoop_covers _
  have hexplores (i : Fin block.length) : Segment.Explores ⟨block, tables, start⟩ i ↔
      Processes tables ⟨⟨[], [], 0, []⟩, [first]⟩ i := by
    constructor
    · rintro ⟨other, hother, hprocesses⟩
      obtain rfl := Option.some.inj (hfirst.symm.trans hother)
      exact hprocesses
    · exact fun hprocesses => ⟨first, hfirst, hprocesses⟩
  simp only [hexplores]
  refine ⟨?_, ?_, ?_, hcovers.flow⟩
  · intro address
    rw [hcovers.reachable]
    simp
  · intro edge
    rw [hcovers.external]
    simp
  · rw [← indexOf_some hfirst]
    exact hcovers.stack first (List.mem_singleton_self _)

end WindbgMcp.Driver
