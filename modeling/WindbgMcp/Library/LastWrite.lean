import Mathlib.Data.List.Basic

/-! The last item of a run that writes a place, with what the run held before it. -/
namespace WindbgMcp.Library

variable {α : Type}

/-- `item` is the last of `run` that writes, and `before` is what precedes it. -/
def LastWrite (writes : α → Prop) (run before : List α) (item : α) : Prop :=
  writes item ∧ ∃ after, run = before ++ item :: after ∧ ∀ later ∈ after, ¬ writes later

theorem LastWrite.length_lt {writes : α → Prop} {run before : List α} {item : α}
    (h : LastWrite writes run before item) : before.length < run.length := by
  obtain ⟨_, after, rfl, _⟩ := h
  rw [List.length_append, List.length_cons]
  omega

theorem lastWrite_nil {writes : α → Prop} {before : List α} {item : α} :
    ¬ LastWrite writes [] before item := by
  rintro ⟨_, after, hrun, _⟩
  exact absurd hrun.symm (List.append_ne_nil_of_right_ne_nil before (List.cons_ne_nil item after))

/-- One more item is the last write itself, or leaves the last write what it was. -/
theorem lastWrite_concat {writes : α → Prop} {run before : List α} {last item : α} :
    LastWrite writes (run ++ [last]) before item ↔
      (writes last ∧ before = run ∧ item = last) ∨
        (¬ writes last ∧ LastWrite writes run before item) := by
  constructor
  · rintro ⟨hitem, after, hrun, hafter⟩
    rcases List.eq_nil_or_concat after with rfl | ⟨front, newest, rfl⟩
    · obtain ⟨rfl, hlast⟩ := List.append_inj' hrun rfl
      obtain rfl := List.head_eq_of_cons_eq hlast
      exact Or.inl ⟨hitem, rfl, rfl⟩
    · rw [List.concat_eq_append] at hrun hafter
      rw [← List.cons_append, ← List.append_assoc] at hrun
      obtain ⟨rfl, hlast⟩ := List.append_inj' hrun rfl
      obtain rfl := List.head_eq_of_cons_eq hlast
      right
      refine ⟨hafter _ (List.mem_append_right front List.mem_cons_self), hitem, front, rfl, ?_⟩
      intro later hlater
      exact hafter later (List.mem_append_left _ hlater)
  · rintro (⟨hlast, rfl, rfl⟩ | ⟨hlast, hitem, after, rfl, hafter⟩)
    · exact ⟨hlast, [], rfl, List.forall_mem_nil _⟩
    · refine ⟨hitem, after ++ [last], by simp, ?_⟩
      intro later hlater
      rcases List.mem_append.mp hlater with hmem | hmem
      · exact hafter later hmem
      · rw [List.mem_singleton.mp hmem]
        exact hlast

end WindbgMcp.Library
