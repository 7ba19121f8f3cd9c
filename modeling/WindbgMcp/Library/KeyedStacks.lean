import Mathlib.Data.List.AList

/-! A map from keys to stacks, the top of a stack at its end.  A key whose stack
becomes empty leaves the map. -/
namespace WindbgMcp.Library

variable {κ α : Type} [DecidableEq κ]

abbrev KeyedStacks (κ α : Type) : Type := AList fun _ : κ => List α

namespace KeyedStacks

def stack (table : KeyedStacks κ α) (key : κ) : List α := (table.lookup key).getD []

def total (table : KeyedStacks κ α) : Nat :=
  table.entries.foldr (fun entry count => entry.2.length + count) 0

def setStack (table : KeyedStacks κ α) (key : κ) (calls : List α) : KeyedStacks κ α :=
  if calls.isEmpty then table.erase key else table.insert key calls

theorem stack_erase (table : KeyedStacks κ α) (key other : κ) :
    stack (table.erase key) other = if other = key then [] else stack table other := by
  unfold stack
  split
  case isTrue h => rw [h, AList.lookup_erase]; rfl
  case isFalse h => rw [AList.lookup_erase_ne h]

theorem stack_setStack (table : KeyedStacks κ α) (key other : κ) (calls : List α) :
    stack (setStack table key calls) other =
      if other = key then calls else stack table other := by
  unfold setStack
  split
  case isTrue h =>
    rw [stack_erase, List.isEmpty_iff.mp h]
  case isFalse h =>
    unfold stack
    split
    case isTrue heq => rw [heq, AList.lookup_insert]; rfl
    case isFalse hne => rw [AList.lookup_insert_ne hne]

theorem foldr_kerase (entries : List (Sigma fun _ : κ => List α)) (hnodup : entries.NodupKeys)
    (key : κ) :
    (entries.kerase key).foldr (fun entry count => entry.2.length + count) 0 +
        ((entries.dlookup key).getD []).length =
      entries.foldr (fun entry count => entry.2.length + count) 0 := by
  induction entries with
  | nil => rfl
  | cons entry entries ih =>
    obtain ⟨other, calls⟩ := entry
    have hrest := ih (List.nodupKeys_cons.mp hnodup).2
    by_cases heq : other = key
    · subst heq
      have hhead : List.kerase other (⟨other, calls⟩ :: entries) = entries :=
        List.kerase_cons_eq rfl
      rw [hhead, List.dlookup_cons_eq]
      exact Nat.add_comm _ _
    · rw [List.kerase_cons_ne fun h => heq h.symm, List.dlookup_cons_ne _ _ fun h => heq h.symm]
      simp only [List.foldr_cons]
      omega

theorem total_erase (table : KeyedStacks κ α) (key : κ) :
    total (table.erase key) + (stack table key).length = total table :=
  foldr_kerase table.entries table.nodupKeys key

/-- Replacing a stack changes the total by the difference of the two lengths. -/
theorem total_setStack (table : KeyedStacks κ α) (key : κ) (calls : List α) :
    total (setStack table key calls) + (stack table key).length =
      total table + calls.length := by
  have herase := total_erase table key
  unfold setStack
  split
  case isTrue h =>
    rw [herase, List.isEmpty_iff.mp h]
    rfl
  case isFalse h =>
    have hinsert : total (table.insert key calls) =
        calls.length + total (table.erase key) := by
      unfold total
      rw [AList.entries_insert]
      rfl
    omega

omit [DecidableEq κ] in
theorem exists_mem_of_total_pos {table : KeyedStacks κ α} (h : 0 < total table) :
    ∃ entry ∈ table.entries, entry.2 ≠ [] := by
  unfold total at h
  generalize table.entries = entries at h
  induction entries with
  | nil => simp at h
  | cons entry entries ih =>
    by_cases hempty : entry.2 = []
    · simp only [List.foldr_cons, hempty, List.length_nil, Nat.zero_add] at h
      obtain ⟨other, hmem, hne⟩ := ih h
      exact ⟨other, List.mem_cons_of_mem _ hmem, hne⟩
    · exact ⟨entry, List.mem_cons_self, hempty⟩

theorem stack_of_mem {table : KeyedStacks κ α} {entry : Sigma fun _ : κ => List α}
    (h : entry ∈ table.entries) : stack table entry.1 = entry.2 := by
  have hlookup := AList.mem_lookup_iff.mpr h
  unfold stack
  rw [Option.mem_def.mp hlookup]
  rfl

end KeyedStacks
end WindbgMcp.Library
