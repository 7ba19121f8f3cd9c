import WindbgMcp.Library.Text

/-! The pieces of a text: how they grow by a character, and how they follow what is done to
the text. -/
namespace WindbgMcp.Library.Text

theorem splitChars_ne_nil (p : Char → Bool) (text : List Char) : splitChars p text ≠ [] := by
  cases text with
  | nil => exact List.cons_ne_nil _ _
  | cons c rest =>
    rw [splitChars]
    split
    · exact List.cons_ne_nil _ _
    · split
      · exact List.cons_ne_nil _ _
      · exact List.cons_ne_nil _ _

theorem exists_splitChars (p : Char → Bool) (text : List Char) :
    ∃ piece pieces, splitChars p text = piece :: pieces :=
  List.exists_cons_of_ne_nil (splitChars_ne_nil p text)

theorem splitChars_cons {p : Char → Bool} {text piece : List Char} {pieces : List (List Char)}
    (c : Char) (h : splitChars p text = piece :: pieces) :
    splitChars p (c :: text) =
      if p c then [] :: piece :: pieces else (c :: piece) :: pieces := by
  rw [splitChars, h]

theorem splitChars_append {p : Char → Bool} {front back piece : List Char}
    {pieces : List (List Char)} (hfront : ∀ c ∈ front, p c = false)
    (hback : splitChars p back = piece :: pieces) :
    splitChars p (front ++ back) = (front ++ piece) :: pieces := by
  induction front with
  | nil => exact hback
  | cons c front ih =>
    rw [List.forall_mem_cons] at hfront
    rw [List.cons_append, splitChars_cons c (ih hfront.2), hfront.1]
    rfl

theorem not_mem_of_mem_splitChars {p : Char → Bool} {mark : Char} (hmark : p mark = true)
    {text : List Char} : ∀ piece ∈ splitChars p text, mark ∉ piece := by
  induction text with
  | nil =>
    intro piece hpiece
    rw [List.mem_singleton.mp hpiece]
    exact List.not_mem_nil
  | cons c rest ih =>
    obtain ⟨first, others, hpieces⟩ := exists_splitChars p rest
    rw [hpieces] at ih
    rw [splitChars_cons c hpieces]
    intro piece hpiece
    split at hpiece
    · cases hpiece with
      | head => exact List.not_mem_nil
      | tail _ hpiece => exact ih piece hpiece
    · rename_i hc
      cases hpiece with
      | head =>
        intro hmem
        cases hmem with
        | head => exact hc hmark
        | tail _ hmem => exact ih first List.mem_cons_self hmem
      | tail _ hpiece => exact ih piece (List.mem_cons_of_mem first hpiece)

/-- A text is split at a mark into the pieces before it and the pieces behind it. -/
theorem splitChars_mark {p : Char → Bool} {mark : Char} (hmark : p mark = true)
    (front back : List Char) :
    splitChars p (front ++ mark :: back) = splitChars p front ++ splitChars p back := by
  induction front with
  | nil =>
    obtain ⟨piece, pieces, hpieces⟩ := exists_splitChars p back
    rw [List.nil_append, splitChars_cons mark hpieces, hmark, hpieces]
    rfl
  | cons c front ih =>
    obtain ⟨piece, pieces, hpieces⟩ := exists_splitChars p front
    rw [hpieces, List.cons_append] at ih
    rw [List.cons_append, splitChars_cons c ih, splitChars_cons c hpieces]
    split <;> rfl

theorem splitChars_or (p q : Char → Bool) (text : List Char) :
    splitChars (fun c => p c || q c) text = (splitChars p text).flatMap (splitChars q) := by
  induction text with
  | nil => rfl
  | cons c rest ih =>
    obtain ⟨piece, pieces, hpieces⟩ := exists_splitChars p rest
    obtain ⟨first, others, hfirst⟩ := exists_splitChars q piece
    rw [hpieces, List.flatMap_cons, hfirst, List.cons_append] at ih
    rw [splitChars_cons c ih, splitChars_cons c hpieces]
    cases hp : p c with
    | true => simp [hfirst, splitChars]
    | false =>
      cases hq : q c <;> simp [splitChars_cons c hfirst, hq]

theorem splitChars_map {p : Char → Bool} {f : Char → Char} (h : ∀ c, p (f c) = p c)
    (text : List Char) : splitChars p (text.map f) = (splitChars p text).map (List.map f) := by
  induction text with
  | nil => rfl
  | cons c rest ih =>
    obtain ⟨piece, pieces, hpieces⟩ := exists_splitChars p rest
    rw [hpieces, List.map_cons] at ih
    rw [List.map_cons, splitChars_cons _ ih, splitChars_cons c hpieces, h c]
    split <;> rfl

theorem splitAtFirst_mark {mark : Char} {front back : List Char} (h : mark ∉ front) :
    splitAtFirst [mark] (front ++ mark :: back) = some (front, back) := by
  induction front with
  | nil => simp [splitAtFirst]
  | cons c front ih =>
    rw [List.mem_cons, not_or] at h
    have hnot : ¬ [mark].isPrefixOf (c :: (front ++ mark :: back)) = true := by
      simp [h.1]
    rw [List.cons_append, splitAtFirst, if_neg hnot, ih h.2, Option.map_some]

theorem splitOnce_mark {mark : Char} {front : List Char} (h : mark ∉ front)
    (back : List Char) :
    splitOnce mark (String.ofList (front ++ mark :: back)) =
      some (String.ofList front, String.ofList back) := by
  unfold splitOnce
  rw [String.toList_ofList, splitAtFirst_mark h, Option.map_some]

theorem splitChars_plain {p : Char → Bool} {text : List Char} (h : ∀ c ∈ text, p c = false) :
    splitChars p text = [text] := by
  have hsplit := @splitChars_append p text [] [] [] h rfl
  rw [List.append_nil] at hsplit
  exact hsplit

theorem splitChars_plain_mark {p : Char → Bool} {mark : Char} (hmark : p mark = true)
    {front : List Char} (h : ∀ c ∈ front, p c = false) (back : List Char) :
    splitChars p (front ++ mark :: back) = front :: splitChars p back := by
  rw [splitChars_mark hmark, splitChars_plain h, List.singleton_append]

end WindbgMcp.Library.Text
