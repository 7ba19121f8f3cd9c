import Mathlib.Data.List.Dedup
import Mathlib.Data.List.FinRange
import Mathlib.Data.List.Sort

/-! What is collected from a list: the hash map from a key to the last place that has it, and
the ordered set of the elements. -/
namespace WindbgMcp.Library

variable {α : Type}

section
variable {p : α → Bool} {items : List α} {place : Fin items.length}

def lastPlace (p : α → Bool) (items : List α) : Option (Fin items.length) :=
  (List.finRange items.length).reverse.find? fun place => p (items.get place)

theorem lastPlace_some (h : lastPlace p items = some place) : p (items.get place) = true := by
  simpa using List.find?_some h

theorem lastPlace_none (h : lastPlace p items = none) (place : Fin items.length) :
    p (items.get place) = false := by
  have hall := List.find?_eq_none.mp h place (by simp)
  simpa using hall

theorem le_lastPlace {other : Fin items.length} (h : p (items.get other) = true)
    (hlast : lastPlace p items = some place) : other ≤ place := by
  obtain ⟨-, front, back, hplaces, hmisses⟩ := List.find?_eq_some_iff_append.mp hlast
  have hdescending : (front ++ place :: back).Pairwise (· > ·) := by
    rw [← hplaces]
    exact List.pairwise_reverse.mpr (List.pairwise_lt_finRange _)
  have hmem : other ∈ front ++ place :: back := by
    rw [← hplaces]
    simp
  rw [List.mem_append, List.mem_cons] at hmem
  rcases hmem with hfront | rfl | hback
  · exact absurd (h.symm.trans (by simpa using hmisses other hfront)) Bool.noConfusion
  · exact le_refl _
  · exact le_of_lt ((List.pairwise_cons.mp (List.pairwise_append.mp hdescending).2.1).1 _ hback)

end

section
variable [LinearOrder α]

def sortedSet (items : List α) : List α := (items.insertionSort (· ≤ ·)).dedup

theorem mem_sortedSet {items : List α} {item : α} : item ∈ sortedSet items ↔ item ∈ items := by
  unfold sortedSet
  rw [List.mem_dedup, List.mem_insertionSort]

end

end WindbgMcp.Library
