import WindbgMcp.Library.Masking
import WindbgMcp.Library.Splitting
import WindbgMcp.SavedState.Positions

/-! How a line is read: up to its remark, without its commas and the blanks around it.  An
enumerator alone on its line is read as C reads it. -/
namespace WindbgMcp.SavedState
open Library Library.Text
open Cast (lines)

theorem trimmed_append_blank {space : List Char} (h : Blank space) (text : List Char) :
    trimmed (text ++ space) = trimmed text := by
  unfold trimmed
  rw [List.dropWhile_append]
  split
  · rename_i hempty
    rw [List.isEmpty_iff.mp hempty, List.dropWhile_eq_nil_iff.mpr h]
  · rw [List.reverse_append, List.dropWhile_append_of_pos]
    intro c hc
    exact h c (List.mem_reverse.mp hc)

theorem trimmed_blank_append {space : List Char} (h : Blank space) (text : List Char) :
    trimmed (space ++ text) = trimmed text := by
  unfold trimmed
  rw [List.dropWhile_append_of_pos h]

theorem trimmed_blank {space : List Char} (h : Blank space) : trimmed space = [] := by
  have hnil := trimmed_append_blank h []
  rw [List.nil_append] at hnil
  exact hnil

theorem enumerator_append_blank {space : List Char} (h : Blank space) (text : List Char) :
    enumerator (text ++ space) = enumerator text := by
  unfold enumerator
  rw [trimmed_append_blank h]

theorem enumerator_blank_append {space : List Char} (h : Blank space) (text : List Char) :
    enumerator (space ++ text) = enumerator text := by
  unfold enumerator
  rw [trimmed_blank_append h]

theorem enumerator_blank {space : List Char} (h : Blank space) : enumerator space = none := by
  unfold enumerator
  rw [trimmed_blank h]
  rfl

/-- A text that starts and ends with something other than a blank. -/
structure Core (text : List Char) : Prop where
  first : ∃ c rest, text = c :: rest ∧ isWhitespace c = false
  last : ∃ rest c, text = rest ++ [c] ∧ isWhitespace c = false

theorem Core.trimmed {text : List Char} (h : Core text) : trimmed text = text := by
  obtain ⟨⟨c, rest, hfirst, hc⟩, ⟨front, d, hlast, hd⟩⟩ := h
  unfold SavedState.trimmed
  have hstart : text.dropWhile isWhitespace = text := by
    rw [hfirst, List.dropWhile_cons_of_neg (by simp [hc])]
  rw [hstart, hlast, List.reverse_concat, List.dropWhile_cons_of_neg (by simp [hd]),
    List.reverse_cons, List.reverse_reverse]

theorem dropWhile_cases (p : Char → Bool) (text : List Char) :
    text.dropWhile p = [] ∨ ∃ c rest, text.dropWhile p = c :: rest ∧ p c = false := by
  induction text with
  | nil => exact Or.inl rfl
  | cons c text ih =>
    rw [List.dropWhile_cons]
    split
    · exact ih
    · rename_i hc
      exact Or.inr ⟨c, text, rfl, Bool.eq_false_iff.mpr hc⟩

theorem exists_trimmed (text : List Char) :
    ∃ before behind, Blank before ∧ Blank behind ∧ text = before ++ (trimmed text ++ behind) ∧
      (trimmed text ≠ [] → Core (trimmed text)) := by
  unfold trimmed
  have hfront := @List.takeWhile_append_dropWhile _ isWhitespace text
  have hback := congrArg List.reverse
    (@List.takeWhile_append_dropWhile _ isWhitespace (text.dropWhile isWhitespace).reverse)
  rw [List.reverse_append, List.reverse_reverse] at hback
  refine ⟨_, _, ?_, ?_, hfront.symm.trans (congrArg _ hback.symm), ?_⟩
  · intro c hc
    exact List.mem_takeWhile_imp hc
  · intro c hc
    exact List.mem_takeWhile_imp (List.mem_reverse.mp hc)
  · intro hne
    rcases dropWhile_cases isWhitespace (text.dropWhile isWhitespace).reverse with
      hnil | ⟨d, front, hlast, hd⟩
    · rw [hnil] at hne
      exact absurd rfl hne
    · rcases dropWhile_cases isWhitespace text with hnil | ⟨c, rest, hfirst, hc⟩
      · rw [hnil] at hlast
        cases hlast
      · rw [hlast, List.reverse_cons] at hback ⊢
        refine ⟨?_, front.reverse, d, rfl, hd⟩
        -- What is left at the end still starts where the text starts.
        rw [hfirst] at hback
        cases hrest : front.reverse with
        | nil => exact ⟨d, [], rfl, hd⟩
        | cons c' rest' =>
          rw [hrest] at hback
          obtain rfl := List.head_eq_of_cons_eq hback
          exact ⟨c', rest' ++ [d], rfl, hc⟩

theorem withoutCommas_eq {text : List Char} (h : ',' ∉ text) : withoutCommas text = text := by
  unfold withoutCommas
  cases hrev : text.reverse with
  | nil => rw [List.dropWhile_nil, ← hrev, List.reverse_reverse]
  | cons c rest =>
    have hc : c ≠ ',' := by
      rintro rfl
      exact h (List.mem_reverse.mp (hrev ▸ List.mem_cons_self))
    rw [List.dropWhile_cons_of_neg (by simp [hc]), ← hrev, List.reverse_reverse]

theorem withoutCommas_comma (text : List Char) :
    withoutCommas (text ++ [',']) = withoutCommas text := by
  unfold withoutCommas
  simp

def cut (line : List Char) : List Char := ((splitAtFirst ['/', '/'] line).map (·.1)).getD line

def readCode (text : List Char) : Option Entry :=
  let line := trimmed (withoutCommas (trimmed text))
  if line = [] ∨ line.head? = some '/' ∨ line.head? = some '*' ∨ line.head? = some '#' then none
  else if isName (declarator line).1 then some (declarator line)
  else none

theorem readLine_eq (line : List Char) : readLine line = readCode (cut line) := rfl

theorem cut_plain {line : List Char} (h : '/' ∉ line) : cut line = line := by
  unfold cut
  rw [splitAtFirst_isNone_iff.mpr fun hoccurs => h (hoccurs.subset List.mem_cons_self)]
  rfl

theorem cut_remark {front : List Char} (h : '/' ∉ front) (remark : List Char) :
    cut (front ++ '/' :: '/' :: remark) = front := by
  have hsplit : splitAtFirst ['/', '/'] (front ++ '/' :: '/' :: remark) = some (front, remark) := by
    induction front with
    | nil => simp [splitAtFirst]
    | cons c front ih =>
      rw [List.mem_cons, not_or] at h
      have hnot : ¬ ['/', '/'].isPrefixOf (c :: (front ++ '/' :: '/' :: remark)) = true := by
        simp [h.1]
      rw [List.cons_append, splitAtFirst, if_neg hnot, ih h.2, Option.map_some]
  unfold cut
  rw [hsplit]
  rfl

theorem readCode_blank {space : List Char} (h : Blank space) : readCode space = none := by
  unfold readCode
  rw [trimmed_blank h]
  rfl

theorem isNameChar_of_isName {name : List Char} (h : isName name = true) :
    ∀ c ∈ name, isNameChar c = true := by
  unfold isName at h
  rw [Bool.and_eq_true, Bool.and_eq_true, List.all_eq_true] at h
  exact h.1.2

/-- A first character that is no blank is still there when the text is trimmed. -/
theorem mem_trimmed {c : Char} (hc : isWhitespace c = false) (rest : List Char) :
    c ∈ trimmed (c :: rest) := by
  obtain ⟨before, behind, hbefore, hbehind, htext, -⟩ := exists_trimmed (c :: rest)
  have hmem : c ∈ before ++ (trimmed (c :: rest) ++ behind) := by
    rw [← htext]
    exact List.mem_cons_self
  have hblank : ∀ space, Blank space → c ∉ space := by
    intro space hspace hin
    rw [hspace c hin] at hc
    cases hc
  rw [List.mem_append, List.mem_append] at hmem
  rcases hmem with hin | hin | hin
  · exact absurd hin (hblank before hbefore)
  · exact hin
  · exact absurd hin (hblank behind hbehind)

theorem mem_declarator {c : Char} (hc : isWhitespace c = false) {rest : List Char}
    (hname : isName (declarator (c :: rest)).1 = true) : c ∈ (declarator (c :: rest)).1 := by
  unfold declarator at hname ⊢
  split
  · rename_i name value hsplit
    rw [hsplit] at hname
    have htext := splitAtFirst_append hsplit
    cases name with
    | nil => cases hname
    | cons c' name =>
      obtain rfl := List.head_eq_of_cons_eq htext
      exact mem_trimmed hc name
  · exact List.mem_cons_self

theorem enumerator_core {text : List Char} {entry : Entry} (h : enumerator text = some entry) :
    Core (trimmed text) ∧ declarator (trimmed text) = entry ∧ isName entry.1 = true ∧
      ∀ c ∈ (trimmed text).head?, isNameChar c = true := by
  obtain ⟨before, behind, -, -, -, hcore⟩ := exists_trimmed text
  unfold enumerator at h
  dsimp only at h
  split at h
  · rename_i hdeclared
    obtain rfl := Option.some.inj h
    have hcore : Core (trimmed text) := by
      apply hcore
      intro hnil
      rw [hnil] at hdeclared
      cases hdeclared.1
    refine ⟨hcore, rfl, hdeclared.1, ?_⟩
    obtain ⟨c, rest, htrimmed, hc⟩ := hcore.first
    rw [htrimmed] at hdeclared ⊢
    intro d hd
    cases hd
    exact isNameChar_of_isName hdeclared.1 c (mem_declarator hc hdeclared.1)
  · cases h

/-- What is an enumerator to C is an entry, with or without a comma behind it. -/
theorem readCode_enumerator {text : List Char} {entry : Entry} (hcomma : ',' ∉ text)
    (h : enumerator text = some entry) {space : List Char} (hspace : Blank space) :
    readCode (text ++ space) = some entry ∧ readCode (text ++ ',' :: space) = some entry := by
  obtain ⟨hcore, hentry, hname, hhead⟩ := enumerator_core h
  obtain ⟨before, behind, hbefore, hbehind, htext, -⟩ := exists_trimmed text
  generalize trimmed text = core at *
  have hplain : ',' ∉ core ++ behind := by
    intro hmem
    rw [htext] at hcomma
    exact hcomma (List.mem_append_right before hmem)
  have hread : ∀ line, trimmed (withoutCommas (trimmed line)) = core →
      readCode line = some entry := by
    intro line hline
    unfold readCode
    dsimp only
    rw [hline, hentry, if_neg, if_pos hname]
    obtain ⟨c, rest, rfl, -⟩ := hcore.first
    have hc := hhead c rfl
    rintro (hnil | hmark | hmark | hmark)
    · cases hnil
    all_goals
      obtain rfl := Option.some.inj hmark
      revert hc
      decide
  constructor
  · apply hread
    rw [trimmed_append_blank hspace, htext, trimmed_blank_append hbefore,
      trimmed_append_blank hbehind, hcore.trimmed, withoutCommas_eq, hcore.trimmed]
    exact fun hmem => hplain (List.mem_append_left behind hmem)
  · apply hread
    have hcommaCore : Core (core ++ behind ++ [',']) := by
      obtain ⟨c, rest, rfl, hc⟩ := hcore.first
      exact ⟨⟨c, rest ++ behind ++ [','], by simp, hc⟩, ⟨_, ',', rfl, by decide⟩⟩
    have hline : text ++ ',' :: space = before ++ ((core ++ behind ++ [',']) ++ space) := by
      rw [htext]
      simp
    rw [hline, trimmed_blank_append hbefore, trimmed_append_blank hspace, hcommaCore.trimmed,
      withoutCommas_comma, withoutCommas_eq hplain, trimmed_append_blank hbehind, hcore.trimmed]

/-! ### The lines of a text -/

def dropReturn (line : List Char) : List Char :=
  if line.getLast? = some '\r' then line.dropLast else line

theorem splitAtFirst_concat {c : Char} (hc : c ≠ '/') (text : List Char) :
    splitAtFirst ['/', '/'] (text ++ [c]) =
      (splitAtFirst ['/', '/'] text).map fun parts => (parts.1, parts.2 ++ [c]) := by
  induction text with
  | nil => simp [splitAtFirst, hc.symm]
  | cons d text ih =>
    rw [List.cons_append, splitAtFirst, splitAtFirst, ih]
    cases text with
    | nil => simp [hc.symm, splitAtFirst]
    | cons e text =>
      simp only [List.cons_append, List.isPrefixOf_cons_cons, List.isPrefixOf_nil_left]
      split
      · rfl
      · rw [Option.map_map, Option.map_map]
        rfl

theorem readLine_dropReturn (line : List Char) : readLine (dropReturn line) = readLine line := by
  unfold dropReturn
  split
  · rename_i hlast
    obtain ⟨front, rfl⟩ := List.getLast?_eq_some_iff.mp hlast
    rw [List.dropLast_concat, readLine_eq, readLine_eq]
    unfold cut
    rw [splitAtFirst_concat (by decide)]
    cases splitAtFirst ['/', '/'] front with
    | some parts => rfl
    | none =>
      have hblank : Blank ['\r'] := by decide
      unfold readCode
      dsimp only [Option.map_none, Option.getD_none]
      rw [trimmed_append_blank hblank]
  · rfl

def seen (text : List Char) : List Entry := (lines text).filterMap readLine

theorem lines_append (line rest : List Char) :
    lines (line ++ '\n' :: rest) =
      (splitChars (· = '\n') line).map dropReturn ++ lines rest := by
  unfold lines
  have hrest := splitChars_ne_nil (· = '\n') rest
  rw [@splitChars_mark (· = '\n') '\n' (by decide)]
  dsimp only
  rw [List.dropLast_append_of_ne_nil hrest, List.map_append, List.append_assoc]
  rw [List.getLast?_append_of_ne_nil _ hrest]
  rfl

theorem seen_append (line rest : List Char) :
    seen (line ++ '\n' :: rest) =
      (splitChars (· = '\n') line).filterMap readLine ++ seen rest := by
  have hreturn : readLine ∘ dropReturn = readLine := by
    funext text
    rw [Function.comp_apply, readLine_dropReturn]
  unfold seen
  rw [lines_append, List.filterMap_append, List.filterMap_map, hreturn]

theorem splitChars_line {line : List Char} (h : '\n' ∉ line) :
    splitChars (· = '\n') line = [line] := by
  apply splitChars_plain
  intro c hc
  rw [decide_eq_false_iff_not]
  rintro rfl
  exact h hc

theorem seen_line {line : List Char} (h : '\n' ∉ line) (rest : List Char) :
    seen (line ++ '\n' :: rest) = (readLine line).toList ++ seen rest := by
  rw [seen_append, splitChars_line h]
  cases hread : readLine line <;> simp [hread]

theorem seen_blank {space : List Char} (h : Blank space) (hline : '\n' ∉ space) :
    seen space = [] := by
  have hread : readLine space = none := by
    rw [readLine_eq, cut_plain, readCode_blank h]
    intro hmem
    have hslash := h '/' hmem
    revert hslash
    decide
  unfold seen lines
  rw [splitChars_line hline]
  by_cases hnil : space = []
  · simp [hnil]
  · simp [hnil, hread]

end WindbgMcp.SavedState
