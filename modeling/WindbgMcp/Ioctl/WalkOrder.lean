import Mathlib.Algebra.BigOperators.Fin
import WindbgMcp.Ioctl.Blocks
import WindbgMcp.Library.DepthFirst

/-! The order the blocks of a graph are walked in: each of them once, those reached from
the first block in front, and among these a block before its successors unless a loop
leads back to it. -/
namespace WindbgMcp.Ioctl

open Library Relation

namespace Graph

variable {graph : Graph}

def outgoing (graph : Graph) (block : Nat) : List Nat :=
  (graph.blocks[block]?.map Block.successors).getD []

def Closed (graph : Graph) : Prop :=
  ∀ block ∈ graph.blocks, ∀ successor ∈ block.successors, successor < graph.blocks.length

theorem edge_iff {block successor : Nat} :
    DepthFirst.Edge graph.outgoing block successor ↔ graph.Succeeds block successor := by
  unfold DepthFirst.Edge outgoing Succeeds
  cases graph.blocks[block]? with
  | none => simp
  | some held => simp

theorem reaches_iff {block other : Nat} :
    DepthFirst.Reaches graph.outgoing block other ↔ ReflTransGen graph.Succeeds block other := by
  have hedge : DepthFirst.Edge graph.outgoing = graph.Succeeds := by
    funext block successor
    exact propext edge_iff
  unfold DepthFirst.Reaches
  rw [hedge]

theorem finish_eq_iterate (graph : Graph) (fuel : Nat) (search : DepthFirst.Search Nat) :
    graph.finish fuel search.stack search.seen search.order =
      (((DepthFirst.turn graph.outgoing)^[fuel] search).seen,
        ((DepthFirst.turn graph.outgoing)^[fuel] search).order) := by
  induction fuel generalizing search with
  | zero => rfl
  | succ fuel ih =>
    rw [Function.iterate_succ_apply, ← ih]
    obtain ⟨stack, seen, order⟩ := search
    cases stack with
    | nil =>
      cases fuel with
      | zero => rfl
      | succ fuel => rfl
    | cons entry stack =>
      obtain ⟨block, next⟩ := entry
      have hnext : (graph.blocks[block]?.bind fun block => block.successors[next]?) =
          (graph.outgoing block)[next]? := by
        unfold outgoing
        cases graph.blocks[block]? with
        | none => rfl
        | some held => rfl
      rw [finish, hnext]
      simp only [DepthFirst.turn]
      cases (graph.outgoing block)[next]? with
      | none => rfl
      | some successor =>
        by_cases hseen : successor ∈ seen
        · simp only [if_pos hseen]
        · simp only [if_neg hseen]

def walked (graph : Graph) : DepthFirst.Search Nat :=
  (DepthFirst.turn graph.outgoing)^[graph.effort] (DepthFirst.Search.start 0)

theorem walkOrder_eq (hblocks : graph.blocks ≠ []) :
    graph.walkOrder = graph.walked.order ++
      (List.range graph.blocks.length).filter fun block => block ∉ graph.walked.seen := by
  have hfinish := finish_eq_iterate graph graph.effort (DepthFirst.Search.start 0)
  have hempty : graph.blocks.isEmpty = false := by
    cases hgraph : graph.blocks with
    | nil => exact absurd hgraph hblocks
    | cons block blocks => rfl
  have hwalked : graph.finish graph.effort [(0, 0)] [0] [] =
      (graph.walked.seen, graph.walked.order) := hfinish
  simp only [walkOrder, hempty, hwalked, Bool.false_eq_true, if_false]

theorem effort_eq (graph : Graph) :
    graph.effort =
      ∑ block ∈ Finset.range graph.blocks.length, ((graph.outgoing block).length + 1) + 1 := by
  have hblocks := Fin.sum_univ_fun_getElem graph.blocks fun block => block.successors.length + 1
  unfold effort
  rw [← hblocks, Finset.sum_range]
  congr 1
  apply Finset.sum_congr rfl
  intro block _
  simp [outgoing]

theorem closed_graph (listing : List Instruction) : (Ioctl.graph listing).Closed := by
  intro block hblock successor hsuccessor
  by_cases hlisting : listing = []
  · rw [hlisting] at hblock
    rw [List.mem_singleton.mp hblock] at hsuccessor
    cases hsuccessor
  obtain ⟨index, held⟩ := List.mem_iff_getElem?.mp hblock
  obtain ⟨other, held', _⟩ := (mem_successors_iff hlisting held).mp hsuccessor
  exact (List.getElem?_eq_some_iff.mp held').1

section Walked

variable (hblocks : graph.blocks ≠ []) (hclosed : graph.Closed)
include hblocks hclosed

theorem walked_stack : graph.walked.stack = [] := by
  apply DepthFirst.stack_iterate (Finset.range graph.blocks.length)
  · exact Finset.mem_range.mpr (List.length_pos_iff.mpr hblocks)
  · intro block _ successor hsuccessor
    obtain ⟨held, hheld, hmem⟩ := edge_iff.mp hsuccessor
    exact Finset.mem_range.mpr (hclosed held (List.mem_of_getElem? hheld) successor hmem)
  · rw [effort_eq]
    exact Nat.le_succ _

theorem mem_walked_iff {block : Nat} :
    block ∈ graph.walked.order ↔ ReflTransGen graph.Succeeds 0 block := by
  have hsound := DepthFirst.sound_iterate graph.outgoing 0 graph.effort
  rw [← reaches_iff]
  exact hsound.mem_order_iff (walked_stack hblocks hclosed)

theorem walked_seen {block : Nat} :
    block ∈ graph.walked.seen ↔ ReflTransGen graph.Succeeds 0 block := by
  have hsound := DepthFirst.sound_iterate graph.outgoing 0 graph.effort
  have hseen := hsound.seen block
  have hstack := walked_stack hblocks hclosed
  unfold DepthFirst.Search.path at hseen
  unfold walked at hstack
  rw [← mem_walked_iff hblocks hclosed, walked, hseen, hstack]
  simp

theorem lt_of_reached {block : Nat} (hreached : ReflTransGen graph.Succeeds 0 block) :
    block < graph.blocks.length := by
  induction hreached with
  | refl => exact List.length_pos_iff.mpr hblocks
  | tail _ hsucceeds _ =>
    obtain ⟨held, hheld, hmem⟩ := hsucceeds
    exact hclosed held (List.mem_of_getElem? hheld) _ hmem

end Walked

/-- What makes a list of blocks a complete reverse post-order of their graph. -/
structure ReversePostorder (graph : Graph) (order : List Nat) : Prop where
  nodup : order.Nodup
  complete : ∀ block, block ∈ order ↔ block < graph.blocks.length
  reachedFirst : ∃ reached rest, order = reached ++ rest ∧
    (∀ block ∈ reached, ReflTransGen graph.Succeeds 0 block) ∧
      ∀ block ∈ rest, ¬ReflTransGen graph.Succeeds 0 block
  ordered : ∀ block successor, ReflTransGen graph.Succeeds 0 block →
    graph.Succeeds block successor →
      [block, successor].Sublist order ∨ ReflTransGen graph.Succeeds successor block
  topological :
    (∀ block, ReflTransGen graph.Succeeds 0 block → ¬TransGen graph.Succeeds block block) →
    ∀ block successor, ReflTransGen graph.Succeeds 0 block → graph.Succeeds block successor →
      [block, successor].Sublist order

theorem walkOrder_reversePostorder (graph : Graph) (hclosed : graph.Closed)
    (hblocks : graph.blocks ≠ []) :
    graph.ReversePostorder graph.walkOrder ∧ graph.walked.stack = [] := by
  have hsound := DepthFirst.sound_iterate graph.outgoing 0 graph.effort
  have hwalked {block : Nat} := @mem_walked_iff graph hblocks hclosed block
  have hseen {block : Nat} := @walked_seen graph hblocks hclosed block
  have hordered : ∀ block successor, ReflTransGen graph.Succeeds 0 block →
      graph.Succeeds block successor →
        [block, successor].Sublist graph.walkOrder ∨
          ReflTransGen graph.Succeeds successor block := by
    intro block successor hreached hsucceeds
    have hprecedes := hsound.precedes (hwalked.mpr hreached) (edge_iff.mpr hsucceeds)
    rw [reaches_iff] at hprecedes
    apply hprecedes.imp_left
    intro hsublist
    rw [walkOrder_eq hblocks]
    exact hsublist.trans (List.sublist_append_left _ _)
  refine ⟨⟨?_, ?_, ?_, hordered, ?_⟩, walked_stack hblocks hclosed⟩
  · rw [walkOrder_eq hblocks]
    apply List.Nodup.append hsound.order_nodup (List.nodup_range.filter _)
    intro block hmem hrest
    have hunseen := of_decide_eq_true (List.mem_filter.mp hrest).2
    exact hunseen (hseen.mpr (hwalked.mp hmem))
  · intro block
    rw [walkOrder_eq hblocks, List.mem_append, hwalked, List.mem_filter, List.mem_range,
      decide_eq_true_eq, hseen]
    constructor
    · intro hmem
      exact hmem.elim (lt_of_reached hblocks hclosed) And.left
    · intro hblock
      by_cases hreached : ReflTransGen graph.Succeeds 0 block
      · exact Or.inl hreached
      · exact Or.inr ⟨hblock, hreached⟩
  · refine ⟨_, _, walkOrder_eq hblocks, fun block => hwalked.mp, ?_⟩
    intro block hmem hreached
    exact of_decide_eq_true (List.mem_filter.mp hmem).2 (hseen.mpr hreached)
  · intro hacyclic block successor hreached hsucceeds
    apply (hordered block successor hreached hsucceeds).resolve_right
    intro hback
    exact hacyclic block hreached (TransGen.head' hsucceeds hback)

def tangled : List Instruction :=
  [{ address := 0, mnemonic := "je", flow := .branch (some 2) },
    { address := 1, mnemonic := "jmp", flow := .jmp (some 3) },
    { address := 2, mnemonic := "je", flow := .branch (some 2) },
    { address := 3, mnemonic := "jmp", flow := .jmp (some 0) },
    { address := 4, mnemonic := "jmp", flow := .jmp (some 3) }]

theorem walkOrder_reversePostorder_tangled :
    (Ioctl.graph tangled).ReversePostorder [0, 2, 1, 3, 4] ∧
      (Ioctl.graph tangled).walked.stack = [] :=
  walkOrder_reversePostorder (Ioctl.graph tangled) (closed_graph tangled) (by decide)

end Graph

end WindbgMcp.Ioctl
