import Mathlib.Algebra.BigOperators.Group.Finset.Basic
import Mathlib.Algebra.Order.BigOperators.Group.Finset
import Mathlib.Algebra.Order.Ring.Nat
import Mathlib.Data.List.Chain
import Mathlib.Logic.Function.Iterate
import Mathlib.Logic.Relation

/-! Depth-first search on an explicit stack.  Each entry is a node and the number of its
successors already looked at; a node is finished when none is left.  The finished nodes,
the last one first, are in reverse post-order: a node stands before its successors but
for those that lead back to it. -/
namespace WindbgMcp.Library.DepthFirst

open Relation

variable {α : Type}

structure Search (α : Type) where
  stack : List (α × Nat)
  seen : List α
  order : List α

def Search.start (root : α) : Search α := ⟨[(root, 0)], [root], []⟩

variable (successors : α → List α)

def turn [DecidableEq α] (search : Search α) : Search α :=
  match search.stack with
  | [] => search
  | (node, next) :: stack =>
    match (successors node)[next]? with
    | some successor =>
      if successor ∈ search.seen then { search with stack := (node, next + 1) :: stack }
      else
        { search with
          stack := (successor, 0) :: (node, next + 1) :: stack
          seen := successor :: search.seen }
    | none => { search with stack, order := node :: search.order }

def Edge (node successor : α) : Prop := successor ∈ successors node

def Reaches : α → α → Prop := ReflTransGen (Edge successors)

def Search.path (search : Search α) : List α := search.stack.map Prod.fst

/-- What every turn keeps.  The stack is a path from the root, and whatever is finished
leads only to what is seen. -/
structure Sound (root : α) (search : Search α) : Prop where
  seen : ∀ node, node ∈ search.seen ↔ node ∈ search.path ∨ node ∈ search.order
  nodup : (search.path ++ search.order).Nodup
  rooted : root ∈ search.seen
  reached : ∀ node ∈ search.seen, Reaches successors root node
  chained : search.path.IsChain fun child parent => Edge successors parent child
  looked : ∀ node next, (node, next) ∈ search.stack → ∀ place < next, ∀ successor,
    (successors node)[place]? = some successor → successor ∈ search.seen
  closed : ∀ node ∈ search.order, ∀ successor ∈ successors node, successor ∈ search.seen
  ordered : ∀ front node back, search.order = front ++ node :: back →
    ∀ successor ∈ successors node, successor ∈ back ∨ Reaches successors successor node

variable {successors} {root node successor : α} {next : Nat} {stack : List (α × Nat)}
  {seen order : List α}

theorem sound_start (root : α) : Sound successors root (Search.start root) where
  seen := by simp [Search.start, Search.path]
  nodup := by simp [Search.start, Search.path]
  rooted := List.mem_cons_self
  reached := by
    intro node hmem
    rw [List.mem_singleton.mp hmem]
    exact ReflTransGen.refl
  chained := List.IsChain.singleton _
  looked := by
    intro node next hmem place hplace
    simp only [Search.start, List.mem_singleton, Prod.mk.injEq] at hmem
    omega
  closed := fun node hmem => absurd hmem List.not_mem_nil
  ordered := by
    intro front node back heq
    cases front with
    | nil => cases heq
    | cons _ _ => cases heq

theorem reaches_top {path : List α}
    (h : (node :: path).IsChain fun child parent => Edge successors parent child) :
    ∀ below ∈ path, Reaches successors below node := by
  induction path generalizing node with
  | nil => exact fun below hmem => absurd hmem List.not_mem_nil
  | cons parent path ih =>
    rw [List.isChain_cons_cons] at h
    intro below hmem
    cases hmem with
    | head => exact ReflTransGen.single h.1
    | tail _ hmem => exact (ih h.2 below hmem).tail h.1

theorem Sound.advance (h : Sound successors root ⟨(node, next) :: stack, seen, order⟩)
    (hsuccessor : (successors node)[next]? = some successor) (hseen : successor ∈ seen) :
    Sound successors root ⟨(node, next + 1) :: stack, seen, order⟩ where
  seen := h.seen
  nodup := h.nodup
  rooted := h.rooted
  reached := h.reached
  chained := h.chained
  looked := by
    intro other count hmem place hplace target htarget
    cases hmem with
    | head =>
      by_cases hlast : place = next
      · rw [hlast, hsuccessor] at htarget
        rw [← Option.some.inj htarget]
        exact hseen
      · exact h.looked node next List.mem_cons_self place (by omega) target htarget
    | tail _ hmem =>
      exact h.looked other count (List.mem_cons_of_mem _ hmem) place hplace target htarget
  closed := h.closed
  ordered := h.ordered

theorem Sound.push (h : Sound successors root ⟨(node, next) :: stack, seen, order⟩)
    (hsuccessor : (successors node)[next]? = some successor) (hfresh : successor ∉ seen) :
    Sound successors root
      ⟨(successor, 0) :: (node, next + 1) :: stack, successor :: seen, order⟩ where
  seen := by
    intro other
    have hother := h.seen other
    simp only [Search.path, List.map_cons, List.mem_cons] at hother ⊢
    rw [hother]
    exact ⟨fun h => by cases h with
      | inl h => exact Or.inl (Or.inl h)
      | inr h => exact h.imp_left Or.inr,
      fun h => by cases h with
      | inl h => exact h.imp_right Or.inl
      | inr h => exact Or.inr (Or.inr h)⟩
  nodup := by
    have hnodup := h.nodup
    simp only [Search.path, List.map_cons, List.cons_append] at hnodup ⊢
    refine List.nodup_cons.mpr ⟨?_, hnodup⟩
    intro hmem
    apply hfresh
    rw [h.seen]
    simpa [Search.path, or_assoc] using hmem
  rooted := List.mem_cons_of_mem _ h.rooted
  reached := by
    intro other hmem
    cases hmem with
    | head =>
      have htop : node ∈ seen := (h.seen node).mpr (Or.inl List.mem_cons_self)
      exact (h.reached node htop).tail (List.mem_of_getElem? hsuccessor)
    | tail _ hmem => exact h.reached other hmem
  chained := by
    simp only [Search.path, List.map_cons]
    rw [List.isChain_cons_cons]
    exact ⟨List.mem_of_getElem? hsuccessor, h.chained⟩
  looked := by
    intro other count hmem place hplace target htarget
    cases hmem with
    | head => exact absurd hplace (Nat.not_lt_zero place)
    | tail _ hmem =>
      cases hmem with
      | head =>
        by_cases hlast : place = next
        · rw [hlast, hsuccessor] at htarget
          rw [← Option.some.inj htarget]
          exact List.mem_cons_self
        · exact List.mem_cons_of_mem _
            (h.looked node next List.mem_cons_self place (by omega) target htarget)
      | tail _ hmem =>
        exact List.mem_cons_of_mem _
          (h.looked other count (List.mem_cons_of_mem _ hmem) place hplace target htarget)
  closed := fun other hmem target htarget =>
    List.mem_cons_of_mem _ (h.closed other hmem target htarget)
  ordered := h.ordered

/-- A node none of whose successors is left unseen is finished: each of them is finished
already, or still on the stack and so leads to it. -/
theorem Sound.pop (h : Sound successors root ⟨(node, next) :: stack, seen, order⟩)
    (hdone : (successors node)[next]? = none) :
    Sound successors root ⟨stack, seen, node :: order⟩ := by
  have hall : ∀ target ∈ successors node, target ∈ seen := by
    intro target htarget
    obtain ⟨place, hplace⟩ := List.mem_iff_getElem?.mp htarget
    have hlength := List.getElem?_eq_none_iff.mp hdone
    have hlt := (List.getElem?_eq_some_iff.mp hplace).1
    exact h.looked node next List.mem_cons_self place (by omega) target hplace
  refine ⟨?_, ?_, h.rooted, h.reached, ?_, ?_, ?_, ?_⟩
  · intro other
    have hother := h.seen other
    simp only [Search.path, List.map_cons, List.mem_cons] at hother ⊢
    rw [hother, or_assoc, or_left_comm]
  · have hnodup := h.nodup
    simp only [Search.path, List.map_cons, List.cons_append] at hnodup ⊢
    exact List.nodup_middle.mpr hnodup
  · exact h.chained.tail
  · intro other count hmem
    exact h.looked other count (List.mem_cons_of_mem _ hmem)
  · intro other hmem
    cases hmem with
    | head => exact hall
    | tail _ hmem => exact h.closed other hmem
  · intro front other back heq target htarget
    cases front with
    | nil =>
      obtain ⟨rfl, rfl⟩ := List.cons.inj heq
      have hseen := (h.seen target).mp (hall target htarget)
      simp only [Search.path, List.map_cons, List.mem_cons] at hseen
      obtain (hself | hbelow) | hfinished := hseen
      · rw [hself]
        exact Or.inr ReflTransGen.refl
      · exact Or.inr (reaches_top h.chained target hbelow)
      · exact Or.inl hfinished
    | cons first front => exact h.ordered front other back (List.cons.inj heq).2 target htarget

theorem Sound.turn [DecidableEq α] {search : Search α} (h : Sound successors root search) :
    Sound successors root (turn successors search) := by
  obtain ⟨stack, seen, order⟩ := search
  unfold DepthFirst.turn
  cases stack with
  | nil => exact h
  | cons entry stack =>
    obtain ⟨node, next⟩ := entry
    simp only
    split
    · rename_i successor hsuccessor
      split
      · rename_i hseen
        exact h.advance hsuccessor hseen
      · rename_i hfresh
        exact h.push hsuccessor hfresh
    · rename_i hdone
      exact h.pop hdone

theorem sound_iterate [DecidableEq α] (successors : α → List α) (root : α) (turns : Nat) :
    Sound successors root ((turn successors)^[turns] (Search.start root)) := by
  induction turns with
  | zero => exact sound_start root
  | succ turns ih =>
    rw [Function.iterate_succ_apply']
    exact ih.turn

/-! ## The search ends -/

section Ending

variable [DecidableEq α] (successors) (nodes : Finset α)

/-- What is left: the nodes not seen yet, each with its successors, and what is not
looked at of those on the stack. -/
def Search.work (search : Search α) : Nat :=
  ∑ node ∈ nodes with node ∉ search.seen, ((successors node).length + 1) +
    (search.stack.map fun entry => (successors entry.1).length - entry.2 + 1).sum

theorem Search.work_start (hroot : root ∈ nodes) :
    (Search.start root).work successors nodes =
      ∑ node ∈ nodes, ((successors node).length + 1) := by
  have hfilter : (nodes.filter fun node => node ∉ [root]) = nodes.erase root := by
    ext node
    simp [and_comm]
  rw [← Finset.sum_erase_add nodes _ hroot, ← hfilter]
  rfl

variable {successors nodes}

theorem work_push (hfresh : successor ∉ seen) (hnode : successor ∈ nodes)
    (hnext : next < (successors node).length) :
    Search.work successors nodes
        ⟨(successor, 0) :: (node, next + 1) :: stack, successor :: seen, order⟩ <
      Search.work successors nodes ⟨(node, next) :: stack, seen, order⟩ := by
  have hfilter : (nodes.filter fun other => other ∉ successor :: seen) =
      (nodes.filter fun other => other ∉ seen).erase successor := by
    ext other
    simp only [Finset.mem_filter, Finset.mem_erase, List.mem_cons, not_or]
    tauto
  have hmem : successor ∈ nodes.filter fun other => other ∉ seen :=
    Finset.mem_filter.mpr ⟨hnode, hfresh⟩
  have hsum := Finset.add_sum_erase _ (fun other => (successors other).length + 1) hmem
  simp only [Search.work, hfilter, List.map_cons, List.sum_cons]
  omega

section Closed

variable (nodes) (hroot : root ∈ nodes)
  (hclosed : ∀ node ∈ nodes, ∀ other ∈ successors node, other ∈ nodes)
include hroot hclosed

omit [DecidableEq α] in
theorem inside (hreaches : Reaches successors root node) : node ∈ nodes := by
  induction hreaches with
  | refl => exact hroot
  | tail _ hedge ih => exact hclosed _ ih _ hedge

theorem Sound.work_turn {search : Search α} (h : Sound successors root search)
    (hstack : search.stack ≠ []) :
    (DepthFirst.turn successors search).work successors nodes <
      search.work successors nodes := by
  obtain ⟨stack, seen, order⟩ := search
  unfold DepthFirst.turn
  cases stack with
  | nil => exact absurd rfl hstack
  | cons entry stack =>
    obtain ⟨node, next⟩ := entry
    simp only
    split
    · rename_i successor hsuccessor
      have hnext := (List.getElem?_eq_some_iff.mp hsuccessor).1
      split
      · simp only [Search.work, List.map_cons, List.sum_cons]
        omega
      · rename_i hfresh
        have htop : node ∈ seen := (h.seen node).mpr (Or.inl List.mem_cons_self)
        have hnode := inside nodes hroot hclosed (h.reached node htop)
        exact work_push hfresh (hclosed node hnode _ (List.mem_of_getElem? hsuccessor)) hnext
    · simp only [Search.work, List.map_cons, List.sum_cons]
      omega

theorem stack_iterate {turns : Nat}
    (henough : ∑ node ∈ nodes, ((successors node).length + 1) ≤ turns) :
    ((turn successors)^[turns] (Search.start root)).stack = [] := by
  have hleft : ∀ turns,
      ((turn successors)^[turns] (Search.start root)).stack = [] ∨
        ((turn successors)^[turns] (Search.start root)).work successors nodes + turns ≤
          ∑ node ∈ nodes, ((successors node).length + 1) := by
    intro turns
    induction turns with
    | zero => exact Or.inr (Nat.le_of_eq (Search.work_start successors nodes hroot))
    | succ turns ih =>
      rw [Function.iterate_succ_apply']
      have hsound := sound_iterate successors root turns
      generalize (turn successors)^[turns] (Search.start root) = search at ih hsound
      by_cases hstack : search.stack = []
      · left
        unfold DepthFirst.turn
        rw [hstack]
        exact hstack
      · right
        have hless := hsound.work_turn nodes hroot hclosed hstack
        have hwork := ih.resolve_left hstack
        omega
  cases hleft turns with
  | inl hstack => exact hstack
  | inr hwork =>
    have hnone : ((turn successors)^[turns] (Search.start root)).work successors nodes = 0 := by
      omega
    generalize (turn successors)^[turns] (Search.start root) = search at hnone
    cases hstack : search.stack with
    | nil => rfl
    | cons entry stack =>
      simp only [Search.work, hstack, List.map_cons, List.sum_cons] at hnone
      omega

end Closed

end Ending

theorem Sound.mem_order_iff {search : Search α} (h : Sound successors root search)
    (hstack : search.stack = []) : node ∈ search.order ↔ Reaches successors root node := by
  have hseen : ∀ node, node ∈ search.seen ↔ node ∈ search.order := by
    intro node
    rw [h.seen, Search.path, hstack]
    simp
  constructor
  · intro hmem
    exact h.reached node ((hseen node).mpr hmem)
  · intro hreaches
    induction hreaches with
    | refl => exact (hseen root).mp h.rooted
    | tail _ hedge ih => exact (hseen _).mp (h.closed _ ih _ hedge)

theorem Sound.order_nodup {search : Search α} (h : Sound successors root search) :
    search.order.Nodup :=
  (List.nodup_append.mp h.nodup).2.1

theorem Sound.precedes {search : Search α} (h : Sound successors root search)
    (hnode : node ∈ search.order) (hedge : Edge successors node successor) :
    [node, successor].Sublist search.order ∨ Reaches successors successor node := by
  obtain ⟨front, back, hsplit⟩ := List.append_of_mem hnode
  apply (h.ordered front node back hsplit successor hedge).imp_left
  intro hback
  rw [hsplit]
  apply List.Sublist.trans _ (List.sublist_append_right _ _)
  exact (List.singleton_sublist.mpr hback).cons_cons node

end WindbgMcp.Library.DepthFirst
