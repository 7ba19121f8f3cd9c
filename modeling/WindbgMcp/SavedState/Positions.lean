import Mathlib.Data.List.Induction
import WindbgMcp.Library.LastWrite
import WindbgMcp.SavedState.Enumerators

/-! Which id a name is given: the nearest value at or above the last line that has the name,
and the entries counted on from it. -/
namespace WindbgMcp.SavedState
open Library Library.Text
open Cast (lines)

def shown (header : String) (text : List Char) : List Entry :=
  match enumBody header text with
  | .ok body => (lines body).filterMap readLine
  | .error _ => []

/-- The count behind some entries: the nearest value, and the entries from it on; or all of
them, where there is no value. -/
def Next (entries : List Entry) (next : Nat) : Prop :=
  (∃ before name value literal,
    LastWrite (fun entry : Entry => entry.2.isSome = true) entries before (name, some value) ∧
      readValue value = some literal ∧
      next = (literal + (entries.length - before.length)) % 2 ^ 32) ∨
    ((∀ entry ∈ entries, entry.2 = none) ∧ next = entries.length % 2 ^ 32)

def Given (before : List Entry) (entry : Entry) (id : Nat) : Prop :=
  (∃ value, entry.2 = some value ∧ readValue value = some id) ∨ (entry.2 = none ∧ Next before id)

def Numbered (entries : List Entry) (name : List Char) (id : Nat) : Prop :=
  ∃ before entry, LastWrite (fun entry : Entry => entry.1 = name) entries before entry ∧
    Given before entry id

def Refused (entries : List Entry) : Prop :=
  ∃ entry ∈ entries, ∃ value, entry.2 = some value ∧ readValue value = none

section
variable {entries : List Entry} {entry : Entry} {name : List Char} {id next : Nat}

theorem next_nil : Next [] next ↔ next = 0 := by
  unfold Next
  simp [lastWrite_nil]

theorem next_concat_none (h : entry.2 = none) :
    Next (entries ++ [entry]) next ↔ ∃ id, Next entries id ∧ next = (id + 1) % 2 ^ 32 := by
  unfold Next
  simp only [lastWrite_concat, h, Option.isSome_none, Bool.false_eq_true, false_and, false_or,
    not_false_eq_true, true_and, List.forall_mem_append, List.forall_mem_singleton, and_true,
    List.length_append, List.length_singleton]
  constructor
  · rintro (⟨before, name, value, literal, hlast, hread, rfl⟩ | ⟨hnone, rfl⟩)
    · refine ⟨_, Or.inl ⟨before, name, value, literal, hlast, hread, rfl⟩, ?_⟩
      have hbefore := hlast.length_lt
      omega
    · exact ⟨_, Or.inr ⟨hnone, rfl⟩, by omega⟩
  · rintro ⟨_, ⟨before, name, value, literal, hlast, hread, rfl⟩ | ⟨hnone, rfl⟩, rfl⟩
    · refine Or.inl ⟨before, name, value, literal, hlast, hread, ?_⟩
      have hbefore := hlast.length_lt
      omega
    · exact Or.inr ⟨hnone, by omega⟩

theorem next_concat_some {value : List Char} {literal : Nat} (h : entry.2 = some value)
    (hread : readValue value = some literal) :
    Next (entries ++ [entry]) next ↔ next = (literal + 1) % 2 ^ 32 := by
  obtain ⟨name, _⟩ := entry
  obtain rfl : _ = some value := h
  unfold Next
  simp only [lastWrite_concat, Option.isSome_some, true_and, not_true_eq_false, false_and,
    or_false, List.length_append, List.length_singleton]
  constructor
  · rintro (⟨before, name', value', literal', ⟨rfl, hsame⟩, hread', rfl⟩ | ⟨hnone, _⟩)
    · cases hsame
      rw [hread] at hread'
      cases hread'
      congr 1
      omega
    · cases hnone _ (List.mem_append_right entries List.mem_cons_self)
  · rintro rfl
    refine Or.inl ⟨entries, name, value, literal, ⟨rfl, rfl⟩, hread, ?_⟩
    congr 1
    omega

theorem numbered_concat :
    Numbered (entries ++ [entry]) name id ↔
      (entry.1 = name ∧ Given entries entry id) ∨
        (entry.1 ≠ name ∧ Numbered entries name id) := by
  unfold Numbered
  simp only [lastWrite_concat]
  constructor
  · rintro ⟨before, last, ⟨hname, rfl, rfl⟩ | ⟨hname, hlast⟩, hgiven⟩
    · exact Or.inl ⟨hname, hgiven⟩
    · exact Or.inr ⟨hname, before, last, hlast, hgiven⟩
  · rintro (⟨hname, hgiven⟩ | ⟨hname, before, last, hlast, hgiven⟩)
    · exact ⟨entries, entry, Or.inl ⟨hname, rfl, rfl⟩, hgiven⟩
    · exact ⟨before, last, Or.inr ⟨hname, hlast⟩, hgiven⟩

theorem refused_concat :
    Refused (entries ++ [entry]) ↔
      Refused entries ∨ ∃ value, entry.2 = some value ∧ readValue value = none := by
  unfold Refused
  simp only [List.mem_append, List.mem_singleton, or_and_right, exists_or, exists_eq_left]

end

structure Counted (entries : List Entry) (counted : Ids × Nat) : Prop where
  next : ∀ next, Next entries next ↔ next = counted.2
  empty : counted.1 = [] ↔ entries = []
  lookup : ∀ name id, counted.1.lookup name = some id ↔ Numbered entries name id

theorem counted_nil : Counted [] ([], 0) where
  next _ := next_nil
  empty := by simp
  lookup name id := by
    unfold Numbered
    simp [lastWrite_nil]

theorem Counted.given {entries : List Entry} {counted : Ids × Nat} (h : Counted entries counted)
    {entry : Entry} {given : Nat} (hgiven : ∀ id, Given entries entry id ↔ id = given)
    (hnext : ∀ next, Next (entries ++ [entry]) next ↔ next = (given + 1) % 2 ^ 32) :
    Counted (entries ++ [entry]) ((entry.1, given) :: counted.1, (given + 1) % 2 ^ 32) where
  next := hnext
  empty := by simp
  lookup name id := by
    rw [numbered_concat, List.lookup_cons]
    by_cases hname : entry.1 = name
    · subst hname
      simp [hgiven, eq_comm]
    · rw [beq_eq_false_iff_ne.mpr (Ne.symm hname)]
      simp [hname, h.lookup]

theorem Counted.add {entries : List Entry} {counted : Ids × Nat} (h : Counted entries counted)
    (entry : Entry) :
    ((∃ value, entry.2 = some value ∧ readValue value = none) ∧
        ∃ error, addEntry counted entry = .error error) ∨
      ((¬ ∃ value, entry.2 = some value ∧ readValue value = none) ∧
        ∃ after, addEntry counted entry = .ok after ∧ Counted (entries ++ [entry]) after) := by
  obtain ⟨ids, next⟩ := counted
  unfold addEntry
  cases hvalue : entry.2 with
  | none =>
    refine Or.inr ⟨by simp, _, rfl, h.given ?_ ?_⟩
    · intro id
      unfold Given
      simp [hvalue, h.next]
    · intro later
      rw [next_concat_none hvalue]
      simp [h.next]
  | some value =>
    cases hread : readValue value with
    | none => exact Or.inl ⟨⟨value, rfl, hread⟩, unevaluated entry.1 value, by simp [hread]⟩
    | some literal =>
      refine Or.inr ⟨by simp [hread], ((entry.1, literal) :: ids, (literal + 1) % 2 ^ 32),
        by simp [hread], h.given ?_ ?_⟩
      · intro id
        unfold Given
        simp [hvalue, hread, eq_comm]
      · intro later
        exact next_concat_some hvalue hread

theorem addEntry_run (entries : List Entry) :
    (Refused entries ∧ ∃ error, entries.foldlM addEntry ([], 0) = .error error) ∨
      (¬ Refused entries ∧
        ∃ counted, entries.foldlM addEntry ([], 0) = .ok counted ∧ Counted entries counted) := by
  induction entries using List.reverseRecOn with
  | nil => exact Or.inr ⟨by simp [Refused], _, rfl, counted_nil⟩
  | append_singleton entries entry ih =>
    rw [refused_concat, List.foldlM_append]
    rcases ih with ⟨hrefused, error, hrun⟩ | ⟨hnot, counted, hrun, hcounted⟩
    · exact Or.inl ⟨Or.inl hrefused, error, by rw [hrun]; rfl⟩
    · rw [hrun]
      rcases hcounted.add entry with ⟨hvalue, error, hadd⟩ | ⟨hvalue, after, hadd, hafter⟩
      · refine Or.inl ⟨Or.inr hvalue, error, ?_⟩
        change [entry].foldlM addEntry counted = _
        rw [List.foldlM_cons, hadd]
        rfl
      · refine Or.inr ⟨not_or.mpr ⟨hnot, hvalue⟩, after, ?_, hafter⟩
        change [entry].foldlM addEntry counted = _
        rw [List.foldlM_cons, hadd]
        rfl

theorem registerIds_eq (header : String) (text : List Char) :
    registerIds header (.ok text) = enumBody header text >>= fun body =>
      ((lines body).filterMap readLine).foldlM addEntry ([], 0) >>= fun counted =>
        if counted.1 = [] then .error ("REGISTER_ID enum in " ++ header ++ " parsed to nothing")
        else .ok counted.1 := rfl

theorem registerIds_spec (header : String) (text : List Char) :
    ((Refused (shown header text) ∨ shown header text = []) ∧
        ∃ error, registerIds header (.ok text) = .error error) ∨
      ((¬ Refused (shown header text) ∧ shown header text ≠ []) ∧
        ∃ ids, registerIds header (.ok text) = .ok ids ∧
          ∀ name id, ids.lookup name = some id ↔ Numbered (shown header text) name id) := by
  have hthen {α β : Type} (value : α) (next : α → Except String β) :
      (Except.ok value >>= next) = next value := rfl
  rw [registerIds_eq]
  unfold shown
  cases enumBody header text with
  | error failure => exact Or.inl ⟨Or.inr rfl, failure, rfl⟩
  | ok body =>
    rw [hthen]
    dsimp only
    generalize (lines body).filterMap readLine = entries
    rcases addEntry_run entries with ⟨hrefused, error, hrun⟩ | ⟨hnot, ⟨ids, next⟩, hrun, hcounted⟩
    · refine Or.inl ⟨Or.inl hrefused, error, ?_⟩
      rw [hrun]
      rfl
    · rw [hrun, hthen]
      by_cases hempty : entries = []
      · refine Or.inl ⟨Or.inr hempty, "REGISTER_ID enum in " ++ header ++ " parsed to nothing", ?_⟩
        exact if_pos (hcounted.empty.mpr hempty)
      · refine Or.inr ⟨⟨hnot, hempty⟩, ids, ?_, hcounted.lookup⟩
        exact if_neg fun hids => hempty (hcounted.empty.mp hids)

/-- A header is read exactly just when it is refused, or each of C's values is the one counted
up to the last entry with the name. -/
theorem exact_iff (declaration : Declaration) (header : String) :
    declaration.Exact header ↔
      Refused (shown header declaration.text) ∨ shown header declaration.text = [] ∨
        ∀ named ∈ declaration.values, ∃ id : Nat,
          Numbered (shown header declaration.text) named.1 id ∧ (id : Int) = named.2 := by
  unfold Declaration.Exact
  rcases registerIds_spec header declaration.text with
    ⟨hrefused, error, hrun⟩ | ⟨⟨hnot, hshown⟩, ids, hrun, hlookup⟩
  · refine iff_of_true (Or.inl ⟨error, hrun⟩) ?_
    rw [← or_assoc]
    exact Or.inl hrefused
  · rw [hrun]
    simp only [reduceCtorEq, exists_false, false_or, hnot, hshown, Except.ok.injEq,
      exists_eq_left', hlookup]

end WindbgMcp.SavedState
