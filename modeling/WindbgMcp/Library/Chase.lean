import Mathlib.Data.List.Chain
import Mathlib.Data.List.Nodup

/-! Chasing links: from one node to the node its link names, until a link cannot be
read, is null or names a node already visited, or until a bound on the number of
nodes.  A chase over its bound can be taken up again where it stopped. -/
namespace WindbgMcp.Library.Chase

variable {α : Type} [DecidableEq α]

inductive Ending (α : Type) where
  | cap (next : α)
  | null
  | loop («at» : α)
  | unreadable («at» : α)
deriving DecidableEq, Repr

/-- The nodes visited from `at` on, at most `bound` of them, and why no more. -/
@[grind =] def chase (link : α → Option α) (null : α) : Nat → List α → α → List α × Ending α
  | 0, _, «at» => ([], .cap «at»)
  | bound + 1, visited, «at» =>
    match link «at» with
    | none => ([«at»], .unreadable «at»)
    | some next =>
      if next = null then ([«at»], .null)
      else if next ∈ «at» :: visited then ([«at»], .loop next)
      else
        let later := chase link null bound («at» :: visited) next
        («at» :: later.1, later.2)

variable {link : α → Option α} {null «at» next : α} {bound more : Nat} {visited fewer : List α}

theorem chase_succ : chase link null (bound + 1) visited «at» =
    match link «at» with
    | none => ([«at»], .unreadable «at»)
    | some next =>
      if next = null then ([«at»], .null)
      else if next ∈ «at» :: visited then ([«at»], .loop next)
      else
        let later := chase link null bound («at» :: visited) next
        («at» :: later.1, later.2) := rfl

theorem length_chase_le : (chase link null bound visited «at»).1.length ≤ bound := by
  induction bound generalizing visited «at» with
  | zero => exact Nat.le_refl _
  | succ bound ih =>
    unfold chase
    split
    · exact Nat.succ_le_succ (Nat.zero_le _)
    split
    · exact Nat.succ_le_succ (Nat.zero_le _)
    split
    · exact Nat.succ_le_succ (Nat.zero_le _)
    · exact Nat.succ_le_succ ih

theorem head_chase : (chase link null (bound + 1) visited «at»).1.head? = some «at» := by
  unfold chase
  split
  · rfl
  split
  · rfl
  split
  · rfl
  · rfl

theorem isChain_chase :
    (chase link null bound visited «at»).1.IsChain (fun node next => link node = some next) := by
  induction bound generalizing visited «at» with
  | zero => exact List.IsChain.nil
  | succ bound ih =>
    unfold chase
    split
    · exact List.IsChain.singleton _
    rename_i next hlink
    split
    · exact List.IsChain.singleton _
    split
    · exact List.IsChain.singleton _
    · simp only
      rw [List.isChain_cons]
      refine ⟨?_, ih⟩
      intro second hsecond
      cases bound with
      | zero => cases hsecond
      | succ bound =>
        rw [head_chase, Option.mem_some_iff] at hsecond
        rw [← hsecond]
        exact hlink

theorem not_mem_of_mem_chase (hat : «at» ∉ visited) :
    ∀ node ∈ (chase link null bound visited «at»).1, node ∉ visited := by
  induction bound generalizing visited «at» with
  | zero => exact fun _ hmem => absurd hmem List.not_mem_nil
  | succ bound ih =>
    have honly : ∀ node ∈ [«at»], node ∉ visited := by
      intro node hmem
      rw [List.mem_singleton.mp hmem]
      exact hat
    unfold chase
    split
    · exact honly
    split
    · exact honly
    split
    · exact honly
    · rename_i hfresh
      intro node hmem
      cases hmem with
      | head => exact hat
      | tail _ hmem =>
        intro hvisited
        exact ih hfresh node hmem (List.mem_cons_of_mem _ hvisited)

theorem nodup_chase : (chase link null bound visited «at»).1.Nodup := by
  induction bound generalizing visited «at» with
  | zero => exact List.nodup_nil
  | succ bound ih =>
    unfold chase
    split
    · exact List.nodup_singleton _
    split
    · exact List.nodup_singleton _
    split
    · exact List.nodup_singleton _
    · rename_i hfresh
      rw [List.nodup_cons]
      refine ⟨?_, ih⟩
      intro hmem
      exact not_mem_of_mem_chase hfresh «at» hmem List.mem_cons_self

def Ended (link : α → Option α) (null : α) (bound : Nat) (visited nodes : List α) (last : α) :
    Ending α → Prop
  | .unreadable «at» => link last = none ∧ «at» = last
  | .null => link last = some null
  | .loop «at» => link last = some «at» ∧ «at» ≠ null ∧ («at» ∈ nodes ∨ «at» ∈ visited)
  | .cap next => nodes.length = bound ∧ link last = some next ∧ next ≠ null ∧ next ∉ nodes ∧
      next ∉ visited

theorem ended_chase {last : α}
    (hlast : (chase link null bound visited «at»).1.getLast? = some last) :
    Ended link null bound visited (chase link null bound visited «at»).1 last
      (chase link null bound visited «at»).2 := by
  induction bound generalizing visited «at» with
  | zero => cases hlast
  | succ bound ih =>
    unfold chase at hlast ⊢
    split at hlast
    · rename_i hlink
      simp only [List.getLast?_singleton, Option.some.injEq] at hlast
      simp only [← hlast]
      exact ⟨hlink, rfl⟩
    rename_i next hlink
    simp only
    split at hlast
    · rename_i hnull
      simp only [List.getLast?_singleton, Option.some.injEq] at hlast
      rw [if_pos hnull, ← hlast]
      exact hnull ▸ hlink
    rename_i hnull
    rw [if_neg hnull]
    split at hlast
    · rename_i hloop
      simp only [List.getLast?_singleton, Option.some.injEq] at hlast
      rw [if_pos hloop, ← hlast]
      refine ⟨hlink, hnull, ?_⟩
      cases hloop with
      | head => exact Or.inl List.mem_cons_self
      | tail _ hmem => exact Or.inr hmem
    · rename_i hfresh
      rw [if_neg hfresh]
      cases bound with
      | zero =>
        simp only [chase, List.getLast?_singleton, Option.some.injEq] at hlast
        rw [← hlast]
        rw [List.mem_cons, not_or] at hfresh
        refine ⟨rfl, hlink, hnull, ?_, hfresh.2⟩
        simpa [chase] using hfresh.1
      | succ bound =>
        have hnonempty : (chase link null (bound + 1) («at» :: visited) next).1 ≠ [] := by
          intro hnil
          have hhead : (chase link null (bound + 1) («at» :: visited) next).1.head? = some next :=
            head_chase
          rw [hnil] at hhead
          cases hhead
        rw [List.getLast?_cons_of_ne_nil hnonempty] at hlast
        have hended := ih hlast
        generalize chase link null (bound + 1) («at» :: visited) next = later at hended ⊢
        obtain ⟨nodes, ending⟩ := later
        cases ending with
        | unreadable «at» => exact hended
        | null => exact hended
        | loop target =>
          obtain ⟨hthere, hne, hmem⟩ := hended
          refine ⟨hthere, hne, ?_⟩
          rw [List.mem_cons] at hmem ⊢
          exact hmem.elim (fun h => Or.inl (Or.inr h))
            (fun h => h.elim (fun h => Or.inl (Or.inl h)) Or.inr)
        | cap target =>
          obtain ⟨hlength, hthere, hne, hnodes, hvisited⟩ := hended
          rw [List.mem_cons, not_or] at hvisited
          refine ⟨congrArg Nat.succ hlength, hthere, hne, ?_, hvisited.2⟩
          rw [List.mem_cons, not_or]
          exact ⟨hvisited.1, hnodes⟩

/-- A longer chase is a shorter one, taken up with what that one has visited if it ended
at its bound. -/
theorem chase_add :
    chase link null (bound + more) visited «at» =
      match chase link null bound visited «at» with
      | (nodes, .cap next) =>
        let later := chase link null more (nodes.reverse ++ visited) next
        (nodes ++ later.1, later.2)
      | done => done := by
  induction bound generalizing visited «at» with
  | zero => simp [chase]
  | succ bound ih =>
    rw [Nat.succ_add, chase_succ, chase_succ]
    split
    · rfl
    split
    · rfl
    split
    · rfl
    · rename_i next _ _ _
      simp only [ih]
      generalize chase link null bound («at» :: visited) next = first
      obtain ⟨nodes, ending⟩ := first
      cases ending with
      | cap target => simp [List.append_assoc]
      | null => rfl
      | loop target => rfl
      | unreadable target => rfl

/-- A chase that reaches its bound visits the same nodes when it starts out having
visited fewer. -/
theorem chase_forget (hfewer : ∀ node ∈ fewer, node ∈ visited)
    (hfull : (chase link null bound visited «at»).1.length = bound) :
    (chase link null bound fewer «at»).1 = (chase link null bound visited «at»).1 := by
  induction bound generalizing visited fewer «at» with
  | zero => rfl
  | succ bound ih =>
    have hmono : ∀ node ∈ «at» :: fewer, node ∈ «at» :: visited := by
      intro node hmem
      cases hmem with
      | head => exact List.mem_cons_self
      | tail _ hmem => exact List.mem_cons_of_mem _ (hfewer node hmem)
    unfold chase at hfull ⊢
    split
    · rfl
    rename_i next hlink
    simp only [hlink] at hfull
    split
    · rfl
    rename_i hnull
    rw [if_neg hnull] at hfull
    by_cases hloop : next ∈ «at» :: visited
    · rw [if_pos hloop] at hfull
      have hbound : bound = 0 := by simpa using hfull.symm
      subst hbound
      rw [if_pos hloop]
      split
      · rfl
      · rfl
    · rw [if_neg hloop] at hfull
      have hfresh : next ∉ «at» :: fewer := fun hmem => hloop (hmono next hmem)
      rw [if_neg hloop, if_neg hfresh]
      simp only [List.length_cons, Nat.add_right_cancel_iff] at hfull
      simp only [ih hmono hfull]

/-- Where a longer chase goes on, a shorter one ends at its bound, and the two together
visit the nodes of the longer one. -/
theorem chase_resume (hmore : 0 < more)
    (hfull : (chase link null (bound + more) [] «at»).1.length = bound + more) :
    ∃ next, (chase link null bound [] «at»).2 = .cap next ∧
      (chase link null (bound + more) [] «at»).1 =
        (chase link null bound [] «at»).1 ++ (chase link null more [] next).1 := by
  have hshort : (chase link null bound [] «at»).1.length ≤ bound := length_chase_le
  rw [chase_add] at hfull ⊢
  generalize chase link null bound [] «at» = first at hshort hfull ⊢
  obtain ⟨nodes, ending⟩ := first
  simp only at hshort
  cases ending with
  | cap next =>
    simp only [List.length_append] at hfull ⊢
    have hlater : (chase link null more (nodes.reverse ++ []) next).1.length ≤ more :=
      length_chase_le
    have hreached : (chase link null more (nodes.reverse ++ []) next).1.length = more := by omega
    have hsame : (chase link null more [] next).1 =
        (chase link null more (nodes.reverse ++ []) next).1 :=
      chase_forget (fun _ hmem => absurd hmem List.not_mem_nil) hreached
    exact ⟨next, rfl, by rw [hsame]⟩
  | null => simp only at hfull; omega
  | loop target => simp only at hfull; omega
  | unreadable target => simp only at hfull; omega

end WindbgMcp.Library.Chase
