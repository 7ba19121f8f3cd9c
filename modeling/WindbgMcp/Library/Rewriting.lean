import WindbgMcp.Library.Splitting

/-! A text some of whose runs are replaced by other runs.  What tells no character of a
run from one of its replacement reads the same text before and after. -/
namespace WindbgMcp.Library

open Text

/-- The second text is the first with some of its runs replaced. -/
inductive Rewritten (replaces : List Char → List Char → Prop) : List Char → List Char → Prop where
  | nil : Rewritten replaces [] []
  | keep (c : Char) {text out : List Char} (rest : Rewritten replaces text out) :
      Rewritten replaces (c :: text) (c :: out)
  | replace {run put text out : List Char} (replaced : replaces run put)
      (rest : Rewritten replaces text out) : Rewritten replaces (run ++ text) (put ++ out)

/-- No character of a run or of its replacement satisfies the predicate. -/
structure Skips (replaces : List Char → List Char → Prop) (p : Char → Bool) : Prop where
  run : ∀ {run put : List Char}, replaces run put → ∀ c ∈ run, p c = false
  put : ∀ {run put : List Char}, replaces run put → ∀ c ∈ put, p c = false

namespace Rewritten

variable {replaces : List Char → List Char → Prop} {p : Char → Bool} {text out : List Char}

theorem refl (text : List Char) : Rewritten replaces text text := by
  induction text with
  | nil => exact nil
  | cons c text ih => exact keep c ih

theorem append (front : List Char) (h : Rewritten replaces text out) :
    Rewritten replaces (front ++ text) (front ++ out) := by
  induction front with
  | nil => exact h
  | cons c front ih => exact keep c ih

theorem filter_eq (h : Rewritten replaces text out) (hskips : Skips replaces p) :
    out.filter p = text.filter p := by
  induction h with
  | nil => rfl
  | keep c rest ih => rw [List.filter_cons, List.filter_cons, ih]
  | replace replaced rest ih =>
    have hrun := List.filter_eq_nil_iff.mpr fun c hc =>
      Bool.not_eq_true _ ▸ hskips.run replaced c hc
    have hput := List.filter_eq_nil_iff.mpr fun c hc =>
      Bool.not_eq_true _ ▸ hskips.put replaced c hc
    rw [List.filter_append, List.filter_append, hrun, hput, ih]

theorem dropWhile (h : Rewritten replaces text out) (hskips : Skips replaces p)
    (hnonempty : ∀ {run put}, replaces run put → run ≠ [] ∧ put ≠ []) :
    Rewritten replaces (text.dropWhile p) (out.dropWhile p) := by
  induction h with
  | nil => exact nil
  | keep c rest ih =>
    rw [List.dropWhile_cons, List.dropWhile_cons]
    split
    · exact ih
    · exact keep c rest
  | @replace run put text out replaced rest ih =>
    have hstops {front back : List Char} (hne : front ≠ []) (hfront : ∀ c ∈ front, p c = false) :
        (front ++ back).dropWhile p = front ++ back := by
      cases front with
      | nil => exact absurd rfl hne
      | cons c front =>
        apply List.dropWhile_cons_of_neg
        rw [hfront c List.mem_cons_self]
        exact Bool.false_ne_true
    rw [hstops (hnonempty replaced).1 (hskips.run replaced),
      hstops (hnonempty replaced).2 (hskips.put replaced)]
    exact replace replaced rest

theorem takeWhile_not (h : Rewritten replaces text out) (hskips : Skips replaces p) :
    Rewritten replaces (text.takeWhile fun c => !p c) (out.takeWhile fun c => !p c) := by
  induction h with
  | nil => exact nil
  | keep c rest ih =>
    rw [List.takeWhile_cons, List.takeWhile_cons]
    split
    · exact keep c ih
    · exact nil
  | replace replaced rest ih =>
    rw [List.takeWhile_append_of_pos, List.takeWhile_append_of_pos]
    · exact replace replaced ih
    · intro c hc
      rw [hskips.put replaced c hc]
      rfl
    · intro c hc
      rw [hskips.run replaced c hc]
      rfl

/-- A text either keeps every character, or has a mark of its runs and then one of their
replacements. -/
theorem eq_or_mem {mark mark' : Char} (h : Rewritten replaces text out)
    (hmarks : ∀ {run put}, replaces run put → mark ∈ run ∧ mark' ∈ put) :
    text = out ∨ mark ∈ text ∧ mark' ∈ out := by
  induction h with
  | nil => exact Or.inl rfl
  | keep c rest ih =>
    cases ih with
    | inl heq => exact Or.inl (congrArg (c :: ·) heq)
    | inr hmem => exact Or.inr (hmem.imp (List.mem_cons_of_mem c) (List.mem_cons_of_mem c))
  | replace replaced rest ih =>
    right
    exact (hmarks replaced).imp (List.mem_append_left _) (List.mem_append_left _)

end Rewritten

/-- A text and what it is rewritten to fall into the same pieces, each rewritten. -/
theorem Rewritten.splitChars {replaces : List Char → List Char → Prop} {p : Char → Bool}
    {text out : List Char} (h : Rewritten replaces text out) (hskips : Skips replaces p) :
    List.Forall₂ (Rewritten replaces) (splitChars p text) (splitChars p out) := by
  induction h with
  | nil => exact .cons .nil .nil
  | @keep c text out rest ih =>
    rw [Text.splitChars, Text.splitChars]
    generalize Text.splitChars p text = pieces at ih
    generalize Text.splitChars p out = outs at ih
    cases ih with
    | nil => exact .cons (.keep c .nil) .nil
    | cons hpiece hpieces =>
      dsimp only
      split
      · exact .cons .nil (.cons hpiece hpieces)
      · exact .cons (.keep c hpiece) hpieces
  | @replace run put text out replaced rest ih =>
    generalize hpieces : Text.splitChars p text = pieces at ih
    generalize houts : Text.splitChars p out = outs at ih
    cases ih with
    | nil => exact absurd hpieces (splitChars_ne_nil p text)
    | cons hpiece hrest =>
      rw [splitChars_append (hskips.run replaced) hpieces,
        splitChars_append (hskips.put replaced) houts]
      exact .cons (.replace replaced hpiece) hrest

end WindbgMcp.Library
