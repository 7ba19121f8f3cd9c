import Mathlib.Data.List.Dedup
import Mathlib.Data.List.Nodup

/-! Pairs filed under their first half, in the order the keys first appear. -/
namespace WindbgMcp.Library

variable {κ α : Type} [DecidableEq κ]

abbrev Groups (κ α : Type) : Type := List (κ × List α)

namespace Groups

def file : Groups κ α → κ × α → Groups κ α
  | [], entry => [(entry.1, [entry.2])]
  | (key, values) :: groups, entry =>
    if key = entry.1 then (key, values ++ [entry.2]) :: groups
    else (key, values) :: file groups entry

def Filed (groups : Groups κ α) (key : κ) (value : α) : Prop :=
  ∃ group ∈ groups, group.1 = key ∧ value ∈ group.2

theorem keys_file (groups : Groups κ α) (entry : κ × α) :
    (file groups entry).map Prod.fst =
      if entry.1 ∈ groups.map Prod.fst then groups.map Prod.fst
      else groups.map Prod.fst ++ [entry.1] := by
  induction groups with
  | nil => rfl
  | cons group groups ih =>
    unfold file
    split
    case isTrue hsame => simp [hsame]
    case isFalse hother =>
      simp only [List.map_cons, ih, List.mem_cons, Ne.symm hother, false_or]
      split <;> rfl

theorem nodup_file {groups : Groups κ α} {entry : κ × α} (honce : (groups.map Prod.fst).Nodup) :
    ((file groups entry).map Prod.fst).Nodup := by
  rw [keys_file]
  split
  · exact honce
  case isFalse hfresh =>
    apply List.Nodup.append honce (List.nodup_singleton _)
    intro key hmember hsame
    rw [List.mem_singleton] at hsame
    exact hfresh (hsame ▸ hmember)

omit [DecidableEq κ] in
theorem filed_cons {group : κ × List α} {groups : Groups κ α} {key : κ} {value : α} :
    Filed (group :: groups) key value ↔
      (group.1 = key ∧ value ∈ group.2) ∨ Filed groups key value := by
  simp only [Filed, List.mem_cons, exists_eq_or_imp]

theorem filed_file {groups : Groups κ α} {entry : κ × α} {key : κ} {value : α} :
    Filed (file groups entry) key value ↔
      Filed groups key value ∨ entry = (key, value) := by
  obtain ⟨into, added⟩ := entry
  induction groups with
  | nil =>
    simp only [file, filed_cons, List.mem_singleton, Prod.mk.injEq, @eq_comm _ value]
    exact or_comm
  | cons group groups ih =>
    unfold file
    split
    case isTrue hsame =>
      have hunder : group.1 = into := hsame
      simp only [filed_cons, List.mem_append, List.mem_singleton, Prod.mk.injEq, hunder,
        @eq_comm _ value]
      rw [and_or_left, or_right_comm]
    case isFalse hother => rw [filed_cons, ih, filed_cons, or_assoc]

theorem filed_foldl {pairs : List (κ × α)} {groups : Groups κ α} {key : κ} {value : α} :
    Filed (pairs.foldl file groups) key value ↔
      Filed groups key value ∨ (key, value) ∈ pairs := by
  induction pairs generalizing groups with
  | nil => simp
  | cons pair pairs ih =>
    rw [List.foldl_cons, ih, filed_file, List.mem_cons, or_assoc, @eq_comm _ pair]

theorem nodup_foldl {pairs : List (κ × α)} {groups : Groups κ α}
    (honce : (groups.map Prod.fst).Nodup) : ((pairs.foldl file groups).map Prod.fst).Nodup := by
  induction pairs generalizing groups with
  | nil => exact honce
  | cons pair pairs ih => exact ih (nodup_file honce)

theorem occupied_foldl {pairs : List (κ × α)} {groups : Groups κ α}
    (hoccupied : ∀ group ∈ groups, group.2 ≠ []) :
    ∀ group ∈ pairs.foldl file groups, group.2 ≠ [] := by
  induction pairs generalizing groups with
  | nil => exact hoccupied
  | cons pair pairs ih =>
    apply ih
    clear ih
    induction groups with
    | nil => simp [file]
    | cons group groups ih =>
      unfold file
      split
      · intro other hmember
        rw [List.mem_cons] at hmember
        cases hmember with
        | inl hsame => rw [hsame]; simp
        | inr hmember => exact hoccupied other (List.mem_cons_of_mem _ hmember)
      · intro other hmember
        rw [List.mem_cons] at hmember
        cases hmember with
        | inl hsame => exact hoccupied other (hsame ▸ List.mem_cons_self)
        | inr hmember =>
          exact ih (fun other hmember => hoccupied other (List.mem_cons_of_mem _ hmember)) other
            hmember

end Groups

end WindbgMcp.Library
