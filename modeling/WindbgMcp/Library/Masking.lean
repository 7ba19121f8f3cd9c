import WindbgMcp.Library.Text

/-! Replacing parts of a text by a mask.  A word that has neither end of the mask in it,
and does not stand inside it, can occur behind such a replacement only where it occurred
before: the cuts do not put one together. -/
namespace WindbgMcp.Library

section Lists
variable {α : Type}

structure Mask (α : Type) where
  opening : α
  word : List α
  closing : α

def Mask.text (mask : Mask α) : List α := mask.opening :: (mask.word ++ [mask.closing])

/-- `out` is `text` with some parts of it replaced. -/
inductive Masked (mask : Mask α) : List α → List α → Prop
  | plain (text : List α) : Masked mask text text
  | hide (front hidden : List α) {back out : List α} (rest : Masked mask back out) :
      Masked mask (front ++ (hidden ++ back)) (front ++ (mask.text ++ out))

/-- A word that no part of the mask can be part of. -/
structure Mask.Spares (mask : Mask α) (word : List α) : Prop where
  opening : mask.opening ∉ word
  closing : mask.closing ∉ word
  inside : ¬word <:+: mask.word

variable {mask : Mask α} {word text out : List α}

theorem Masked.append (front : List α) (masked : Masked mask text out) :
    Masked mask (front ++ text) (front ++ out) := by
  cases masked with
  | plain text => exact .plain _
  | hide front' hidden rest =>
    rw [← List.append_assoc front, ← List.append_assoc front]
    exact .hide (front ++ front') hidden rest

theorem infix_append_cons {c : α} {front back : List α} (hc : c ∉ word)
    (h : word <:+: front ++ c :: back) : word <:+: front ∨ word <:+: back := by
  obtain ⟨before, behind, heq⟩ := h
  rcases List.append_eq_append_iff.mp heq with ⟨rest, hfront, _⟩ | ⟨rest, hbefore, hback⟩
  · apply Or.inl
    rw [hfront]
    exact ⟨before, rest, rfl⟩
  · cases rest with
    | nil =>
      apply Or.inl
      rw [List.append_nil] at hbefore
      exact ⟨before, [], by rw [List.append_nil, hbefore]⟩
    | cons first rest =>
      obtain ⟨rfl, rfl⟩ := List.cons.inj hback
      rcases List.append_eq_append_iff.mp hbefore with ⟨part, _, hword⟩ | ⟨part, _, hrest⟩
      · apply absurd _ hc
        rw [hword]
        exact List.mem_append_right _ List.mem_cons_self
      · cases part with
        | nil =>
          apply absurd _ hc
          rw [List.nil_append] at hrest
          rw [← hrest]
          exact List.mem_cons_self
        | cons first part =>
          obtain ⟨_, rfl⟩ := List.cons.inj hrest
          exact Or.inr ⟨part, behind, rfl⟩

theorem Mask.Spares.infix_append {front back : List α} (spares : mask.Spares word)
    (h : word <:+: front ++ (mask.text ++ back)) : word <:+: front ∨ word <:+: back := by
  have hassoc : front ++ (mask.text ++ back) =
      front ++ mask.opening :: (mask.word ++ mask.closing :: back) := by
    simp [Mask.text]
  rw [hassoc] at h
  rcases infix_append_cons spares.opening h with hfront | hrest
  · exact Or.inl hfront
  · rcases infix_append_cons spares.closing hrest with hinside | hback
    · exact absurd hinside spares.inside
    · exact Or.inr hback

theorem Masked.isInfix (masked : Masked mask text out) (spares : mask.Spares word)
    (h : word <:+: out) : word <:+: text := by
  induction masked with
  | plain text => exact h
  | hide front hidden rest ih =>
    rcases spares.infix_append h with hfront | hback
    · exact hfront.trans (List.prefix_append _ _).isInfix
    · have hbehind := (ih hback).trans (List.suffix_append hidden _).isInfix
      exact hbehind.trans (List.suffix_append front _).isInfix

end Lists

namespace Text

theorem splitAtFirst_isNone_iff {pattern text : List Char} :
    splitAtFirst pattern text = none ↔ ¬pattern <:+: text := by
  induction text with
  | nil =>
    rw [splitAtFirst, List.infix_nil]
    cases pattern <;> simp
  | cons c rest ih =>
    rw [splitAtFirst, List.infix_cons_iff]
    by_cases hfront : pattern.isPrefixOf (c :: rest)
    · rw [if_pos hfront]
      simp [List.isPrefixOf_iff_prefix.mp hfront]
    · rw [if_neg hfront, Option.map_eq_none_iff, ih]
      have hnot : ¬pattern <+: c :: rest := fun h =>
        hfront (List.isPrefixOf_iff_prefix.mpr h)
      simp [hnot]

theorem splitAtFirst_first {pattern text before behind : List Char}
    (h : splitAtFirst pattern text = some (before, behind)) (hpattern : pattern ≠ []) :
    ¬pattern <:+: before := by
  induction text generalizing before with
  | nil =>
    rw [splitAtFirst, if_neg (by simpa using hpattern)] at h
    cases h
  | cons c rest ih =>
    rw [splitAtFirst] at h
    split at h
    case isTrue =>
      obtain ⟨rfl, _⟩ := Prod.mk.inj (Option.some.inj h)
      rw [List.infix_nil]
      exact hpattern
    case isFalse hnot =>
      obtain ⟨⟨before', behind'⟩, hrest, heq⟩ := Option.map_eq_some_iff.mp h
      obtain ⟨rfl, rfl⟩ := Prod.mk.inj heq
      rw [List.infix_cons_iff]
      rintro (hfront | hoccurs)
      · apply hnot
        rw [List.isPrefixOf_iff_prefix]
        have happend := splitAtFirst_append hrest
        refine hfront.trans ⟨pattern ++ behind', ?_⟩
        rw [← happend]
        simp
      · exact ih hrest hoccurs

/-- Every occurrence of a pattern replaced, from the left, none of them overlapping.
The pattern is not empty. -/
def replaceAll (pattern : { pattern : List Char // pattern ≠ [] }) (mask text : List Char) :
    List Char :=
  match _hsplit : splitAtFirst pattern.1 text with
  | some (before, behind) => before ++ (mask ++ replaceAll pattern mask behind)
  | none => text
termination_by text.length
decreasing_by
  have hlength := splitAtFirst_length _hsplit
  have hpos := List.length_pos_iff.mpr pattern.2
  omega

variable (pattern : { pattern : List Char // pattern ≠ [] })

theorem replaceAll_masked (mask : Mask Char) (text : List Char) :
    Masked mask text (replaceAll pattern mask.text text) := by
  fun_induction replaceAll pattern mask.text text with
  | case1 text before behind hsplit ih =>
    have htext := splitAtFirst_append hsplit
    rw [List.append_assoc] at htext
    rw [← htext]
    exact .hide before pattern.1 ih
  | case2 text => exact .plain text

theorem not_infix_replaceAll {mask : Mask Char} (spares : mask.Spares pattern.1)
    (text : List Char) : ¬pattern.1 <:+: replaceAll pattern mask.text text := by
  fun_induction replaceAll pattern mask.text text with
  | case1 text before behind hsplit ih =>
    intro h
    rcases spares.infix_append h with hbefore | hrest
    · exact splitAtFirst_first hsplit pattern.2 hbefore
    · exact ih hrest
  | case2 text hnone => exact splitAtFirst_isNone_iff.mp hnone

end Text
end WindbgMcp.Library
