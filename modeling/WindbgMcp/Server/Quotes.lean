import WindbgMcp.Library.Splitting
import WindbgMcp.Server.Commands
import Mathlib.Data.List.Forall2

/-! A command with its quoted spans blanked out, and when the blanking hides a
session-control command of a line whose quotes do not pair up. -/
namespace WindbgMcp.Server

open Library

def isLineBreak (c : Char) : Bool := c == '\r' || c == '\n'

def kept (c : Char) (inQuote : Bool) : Char := if inQuote then ' ' else c

def lexQuotes (inQuote : Bool) : List Char → List Char × Bool
  | [] => ([], inQuote)
  | c :: rest =>
    if c = '\\' then
      match rest with
      | [] => ([kept c inQuote], inQuote)
      | escaped :: behind =>
        -- a line break is a command boundary before it is anything's escape
        if isLineBreak escaped then
          (lexQuotes inQuote (escaped :: behind)).map (kept c inQuote :: ·) id
        else (lexQuotes inQuote behind).map (kept c inQuote :: kept escaped inQuote :: ·) id
    else if c = '\x22' then (lexQuotes (!inQuote) rest).map (' ' :: ·) id
    else if isLineBreak c then (lexQuotes false rest).map (c :: ·) id
    else (lexQuotes inQuote rest).map (kept c inQuote :: ·) id

def unquoted (c : Char) : Char := if c = '\x22' then ' ' else c

def outsideQuotes (command : String) : String :=
  let lexed := lexQuotes false command.toList
  if lexed.2 then String.ofList (command.toList.map unquoted) else String.ofList lexed.1

/-! ### Lines and their quotes -/

def lines (text : String) : List (List Char) := Text.splitChars isLineBreak text.toList

def marks : List Char → List Bool
  | [] => []
  | c :: rest =>
    if c = '\\' then
      match rest with
      | [] => [false]
      | _ :: behind => false :: false :: marks behind
    else (c == '\x22') :: marks rest

def quotesBefore (line : List Char) (i : Nat) : Nat := ((marks line).take i).count true

def Unbalanced (line : List Char) : Prop := (marks line).count true % 2 = 1

def visibleFrom (inQuote : Bool) (line : List Char) : List Char :=
  line.mapIdx fun i c =>
    if (marks line)[i]? = some true then ' '
    else kept c (inQuote ^^ (quotesBefore line i % 2 == 1))

def visible (line : List Char) : List Char := visibleFrom false line

/-- Whether a `;`-separated segment of the line starts with a session-control command. -/
def names (line : List Char) : Bool := (Text.splitChars (· == ';') line).any controls

@[simp] theorem marks_escape (escaped : Char) (rest : List Char) :
    marks ('\\' :: escaped :: rest) = false :: false :: marks rest := rfl

theorem marks_cons {c : Char} (h : c ≠ '\\') (rest : List Char) :
    marks (c :: rest) = (c == '\x22') :: marks rest := by
  rw [marks.eq_def]
  exact if_neg h

theorem eq_quote_of_mark {chars : List Char} {i : Nat} {c : Char} (hc : chars[i]? = some c)
    (h : (marks chars)[i]? = some true) : c = '\x22' := by
  fun_induction marks chars generalizing i with
  | case1 => cases h
  | case2 => cases i <;> simp at h
  | case3 escaped rest ih =>
    match i with
    | 0 => simp at h
    | 1 => simp at h
    | i + 2 => exact ih (by simpa using hc) (by simpa using h)
  | case4 first rest hfirst ih =>
    cases i with
    | zero =>
      obtain rfl : first = c := by simpa using hc
      simpa using h
    | succ i => exact ih (by simpa using hc) (by simpa using h)

theorem escaped_of_quote {chars : List Char} {i : Nat} (hc : chars[i]? = some '\x22')
    (h : (marks chars)[i]? ≠ some true) :
    ∃ j, i = j + 1 ∧ chars[j]? = some '\\' ∧ (marks chars)[j]? = some false := by
  fun_induction marks chars generalizing i with
  | case1 => cases hc
  | case2 => cases i <;> simp at hc
  | case3 escaped rest ih =>
    match i with
    | 0 => simp at hc
    | 1 => exact ⟨0, rfl, rfl, rfl⟩
    | i + 2 =>
      obtain ⟨j, rfl, hslash, hmark⟩ := ih (by simpa using hc) (by simpa using h)
      exact ⟨j + 2, rfl, by simpa using hslash, by simpa using hmark⟩
  | case4 first rest hfirst ih =>
    cases i with
    | zero =>
      obtain rfl : first = '\x22' := by simpa using hc
      simp at h
    | succ i =>
      obtain ⟨j, rfl, hslash, hmark⟩ := ih (by simpa using hc) (by simpa using h)
      exact ⟨j + 1, rfl, by simpa using hslash, by simpa using hmark⟩

/-! ### The lexer, line by line -/

theorem visibleFrom_slash (inQuote : Bool) : visibleFrom inQuote ['\\'] = [kept '\\' inQuote] := by
  cases inQuote <;> rfl

theorem visibleFrom_escape (inQuote : Bool) (escaped : Char) (rest : List Char) :
    visibleFrom inQuote ('\\' :: escaped :: rest) =
      kept '\\' inQuote :: kept escaped inQuote :: visibleFrom inQuote rest := by
  simp [visibleFrom, List.mapIdx_cons, quotesBefore]

theorem odd_succ (count : Nat) : ((count + 1) % 2 == 1) = !(count % 2 == 1) := by
  rw [Bool.eq_iff_iff]
  simp only [beq_iff_eq, Bool.not_eq_true', beq_eq_false_iff_ne]
  omega

theorem visibleFrom_quote (inQuote : Bool) (rest : List Char) :
    visibleFrom inQuote ('\x22' :: rest) = ' ' :: visibleFrom (!inQuote) rest := by
  have hflip (count : Nat) :
      (inQuote ^^ ((count + 1) % 2 == 1)) = (!inQuote ^^ (count % 2 == 1)) := by
    rw [odd_succ]
    cases inQuote <;> simp
  simp [visibleFrom, List.mapIdx_cons, quotesBefore, marks_cons, hflip]

theorem visibleFrom_cons (inQuote : Bool) {c : Char} (rest : List Char) (hslash : c ≠ '\\')
    (hquote : c ≠ '\x22') :
    visibleFrom inQuote (c :: rest) = kept c inQuote :: visibleFrom inQuote rest := by
  simp [visibleFrom, List.mapIdx_cons, quotesBefore, marks_cons hslash, hquote]

def endsOpen : Bool → List (List Char) → Bool
  | inQuote, [] => inQuote
  | inQuote, [line] => inQuote ^^ ((marks line).count true % 2 == 1)
  | _, _ :: line :: lines => endsOpen false (line :: lines)

theorem isLineBreak_kept {c : Char} (inQuote : Bool) (h : isLineBreak c = false) :
    isLineBreak (kept c inQuote) = false := by
  cases inQuote with
  | false => exact h
  | true => rfl

theorem endsOpen_congr {line line' : List Char} {lines : List (List Char)}
    {before after : Bool} (h : (before ^^ ((marks line).count true % 2 == 1)) =
      (after ^^ ((marks line').count true % 2 == 1))) :
    endsOpen before (line :: lines) = endsOpen after (line' :: lines) := by
  cases lines with
  | nil => exact h
  | cons next lines => rfl

/-- The lines of what the lexer puts out are the lines of the text as they read, and it ends
inside a quote if the last of them does. -/
theorem lexQuotes_lines (inQuote : Bool) (text : List Char) {line : List Char}
    {others : List (List Char)} (h : Text.splitChars isLineBreak text = line :: others) :
    Text.splitChars isLineBreak (lexQuotes inQuote text).1 =
        visibleFrom inQuote line :: others.map visible ∧
      (lexQuotes inQuote text).2 = endsOpen inQuote (line :: others) := by
  have hslash (inQuote : Bool) : isLineBreak (kept '\\' inQuote) = false :=
    isLineBreak_kept inQuote rfl
  fun_induction lexQuotes inQuote text generalizing line others with
  | case1 inQuote =>
    cases h
    exact ⟨rfl, (Bool.xor_false inQuote).symm⟩
  | case2 inQuote =>
    cases h
    simp [Text.splitChars, hslash, visibleFrom_slash, endsOpen, marks]
  | case3 inQuote escaped behind hbreak ih =>
    obtain ⟨piece, pieces, hpieces⟩ := Text.exists_splitChars isLineBreak behind
    have hescaped := Text.splitChars_cons escaped hpieces
    rw [if_pos hbreak] at hescaped
    obtain ⟨hout, hended⟩ := ih hescaped
    rw [Text.splitChars_cons '\\' hescaped, if_neg (by decide)] at h
    cases h
    constructor
    · rw [Prod.map_fst, Text.splitChars_cons _ hout, hslash, visibleFrom_slash]
      rfl
    · exact hended
  | case4 inQuote escaped behind hbreak ih =>
    obtain ⟨piece, pieces, hpieces⟩ := Text.exists_splitChars isLineBreak behind
    obtain ⟨hout, hended⟩ := ih hpieces
    have hescaped := Text.splitChars_cons escaped hpieces
    rw [if_neg hbreak] at hescaped
    rw [Text.splitChars_cons '\\' hescaped, if_neg (by decide)] at h
    cases h
    constructor
    · rw [Prod.map_fst, visibleFrom_escape]
      have hkept := Text.splitChars_cons (kept escaped inQuote) hout
      rw [isLineBreak_kept inQuote (by simpa using hbreak)] at hkept
      rw [Text.splitChars_cons _ hkept, hslash]
      rfl
    · apply hended.trans
      apply endsOpen_congr
      simp
  | case5 inQuote rest hquote ih =>
    obtain ⟨piece, pieces, hpieces⟩ := Text.exists_splitChars isLineBreak rest
    obtain ⟨hout, hended⟩ := ih hpieces
    rw [Text.splitChars_cons '\x22' hpieces, if_neg (by decide)] at h
    cases h
    constructor
    · rw [Prod.map_fst, Text.splitChars_cons ' ' hout, visibleFrom_quote]
      rfl
    · apply hended.trans
      apply endsOpen_congr
      rw [marks_cons hquote, beq_self_eq_true, List.count_cons_self, odd_succ]
      cases inQuote <;> simp
  | case6 inQuote c rest _ hquote hbreak ih =>
    obtain ⟨piece, pieces, hpieces⟩ := Text.exists_splitChars isLineBreak rest
    obtain ⟨hout, hended⟩ := ih hpieces
    rw [Text.splitChars_cons c hpieces, if_pos hbreak] at h
    cases h
    constructor
    · rw [Prod.map_fst, Text.splitChars_cons c hout, if_pos hbreak]
      rfl
    · exact hended
  | case7 inQuote c rest hescape hquote hbreak ih =>
    obtain ⟨piece, pieces, hpieces⟩ := Text.exists_splitChars isLineBreak rest
    obtain ⟨hout, hended⟩ := ih hpieces
    rw [Text.splitChars_cons c hpieces, if_neg hbreak] at h
    cases h
    constructor
    · rw [Prod.map_fst, Text.splitChars_cons _ hout,
        isLineBreak_kept inQuote (by simpa using hbreak), visibleFrom_cons _ _ hescape hquote]
      rfl
    · apply hended.trans
      apply endsOpen_congr
      simp [marks_cons hescape, hquote]

theorem filter_lexQuotes (inQuote : Bool) (text : List Char) :
    (lexQuotes inQuote text).1.filter isLineBreak = text.filter isLineBreak := by
  have hskip {c : Char} (inQuote : Bool) (rest : List Char) (h : isLineBreak c = false) :
      (kept c inQuote :: rest).filter isLineBreak = rest.filter isLineBreak :=
    List.filter_cons_of_neg (Bool.eq_false_iff.mp (isLineBreak_kept inQuote h))
  have hslash : isLineBreak '\\' = false := rfl
  fun_induction lexQuotes inQuote text with
  | case1 inQuote => rfl
  | case2 inQuote => exact hskip inQuote [] hslash
  | case3 inQuote escaped behind hbreak ih =>
    rw [Prod.map_fst, hskip inQuote _ hslash, ih]
    rfl
  | case4 inQuote escaped behind hbreak ih =>
    rw [Prod.map_fst, hskip inQuote _ hslash, hskip inQuote _ (Bool.eq_false_iff.mpr hbreak), ih]
    exact (List.filter_cons_of_neg hbreak).symm
  | case5 inQuote rest hquote ih => exact ih
  | case6 inQuote c rest _ hquote hbreak ih =>
    rw [Prod.map_fst, List.filter_cons_of_pos hbreak, List.filter_cons_of_pos hbreak, ih]
  | case7 inQuote c rest hescape hquote hbreak ih =>
    rw [Prod.map_fst, hskip inQuote _ (Bool.eq_false_iff.mpr hbreak), ih]
    exact (List.filter_cons_of_neg hbreak).symm

/-! ### What is blanked -/

/-- Characters of a line change only where they stand behind a quote and before the one that
closes it; the quotes themselves may go. -/
structure OnlyQuoted (chars out : List Char) : Prop where
  length : out.length = chars.length
  between : ∀ (i : Nat) (c : Char), chars[i]? = some c → c ≠ '\x22' → out[i]? ≠ some c →
    quotesBefore chars i % 2 = 1 ∧ ∃ j > i, (marks chars)[j]? = some true

def NothingBehind (chars : List Char) : Prop :=
  ∀ (i : Nat) (c : Char), chars[i]? = some c → (∀ j ≥ i, (marks chars)[j]? ≠ some true) → c = ' '

theorem getElem?_visible (chars : List Char) (i : Nat) :
    (visible chars)[i]? = chars[i]?.map fun c =>
      if (marks chars)[i]? = some true then ' ' else kept c (quotesBefore chars i % 2 == 1) := by
  simp [visible, visibleFrom, List.getElem?_mapIdx]

theorem length_visible (chars : List Char) : (visible chars).length = chars.length :=
  List.length_mapIdx

theorem quotesBefore_of_last {chars : List Char} {i : Nat}
    (h : ∀ j ≥ i, (marks chars)[j]? ≠ some true) :
    quotesBefore chars i = (marks chars).count true := by
  have hbehind : ((marks chars).drop i).count true = 0 := by
    rw [List.count_eq_zero]
    intro hmem
    obtain ⟨j, hj⟩ := List.mem_iff_getElem?.mp hmem
    rw [List.getElem?_drop] at hj
    exact h (i + j) (Nat.le_add_right i j) hj
  have hcount := congrArg (List.count true) (List.take_append_drop i (marks chars))
  rw [List.count_append, hbehind, Nat.add_zero] at hcount
  exact hcount

theorem visible_behind {chars : List Char} {i : Nat} {c : Char} (hodd : Unbalanced chars)
    (hc : chars[i]? = some c) (hlast : ∀ j ≥ i, (marks chars)[j]? ≠ some true) :
    (visible chars)[i]? = some ' ' := by
  have hcount := quotesBefore_of_last hlast
  have hinside : quotesBefore chars i % 2 = 1 := hcount ▸ hodd
  rw [getElem?_visible, hc, Option.map_some, if_neg (hlast i (Nat.le_refl i)), hinside]
  rfl

/-- A line keeps what its quotes do not enclose if its quotes pair up, or if only spaces
stand behind the last of them. -/
theorem onlyQuoted_visible (chars : List Char) :
    OnlyQuoted chars (visible chars) ↔ (Unbalanced chars → NothingBehind chars) := by
  constructor
  · intro honly hodd
    -- what changes behind the last quote would have to stand before another
    have hsame {i : Nat} {c : Char} (hc : chars[i]? = some c) (hquote : c ≠ '\x22')
        (hlast : ∀ j ≥ i, (marks chars)[j]? ≠ some true) : c = ' ' := by
      by_contra hne
      have hchanged : (visible chars)[i]? ≠ some c := by
        rw [visible_behind hodd hc hlast]
        intro heq
        exact hne (Option.some.inj heq).symm
      obtain ⟨-, j, hj, hmark⟩ := honly.between i c hc hquote hchanged
      exact hlast j (Nat.le_of_lt hj) hmark
    intro i c hc hlast
    by_cases hquote : c = '\x22'
    · subst hquote
      obtain ⟨j, rfl, hslash, hmark⟩ := escaped_of_quote hc (hlast i (Nat.le_refl i))
      have hspace := hsame hslash (by decide) fun k hk => by
        rcases Nat.eq_or_lt_of_le hk with rfl | hlt
        · simp [hmark]
        · exact hlast k hlt
      exact absurd hspace (by decide)
    · exact hsame hc hquote hlast
  · intro hbehind
    constructor
    case length => exact length_visible chars
    case between =>
      intro i c hc hquote hchanged
      have hmark : (marks chars)[i]? ≠ some true := fun h => hquote (eq_quote_of_mark hc h)
      rw [getElem?_visible, hc, Option.map_some, if_neg hmark] at hchanged
      have hodd : quotesBefore chars i % 2 = 1 := by
        by_contra hne
        apply hchanged
        rw [beq_false_of_ne hne]
        rfl
      refine ⟨hodd, ?_⟩
      by_contra hnone
      have hlast : ∀ j ≥ i, (marks chars)[j]? ≠ some true := by
        intro j hj hmarked
        rcases Nat.eq_or_lt_of_le hj with rfl | hlt
        · exact hmark hmarked
        · exact hnone ⟨j, hlt, hmarked⟩
      have hunbalanced : Unbalanced chars := by
        rw [Unbalanced, ← quotesBefore_of_last hlast]
        exact hodd
      have hspace := hbehind hunbalanced i c hc hlast
      rw [hodd, hspace] at hchanged
      exact hchanged rfl

theorem onlyQuoted_unquoted (chars : List Char) : OnlyQuoted chars (chars.map unquoted) := by
  constructor
  case length => exact List.length_map unquoted
  case between =>
    intro i c hc hquote hchanged
    rw [List.getElem?_map, hc, Option.map_some, unquoted, if_neg hquote] at hchanged
    exact absurd rfl hchanged

/-! ### What is named -/

theorem changesDebugTarget_lines (command : String) :
    changesDebugTarget command = (lines command).any names := by
  have heither : endsCommand = fun c => isLineBreak c || c == ';' := by
    funext c
    rw [endsCommand, isLineBreak, Bool.or_assoc, Bool.or_comm, Bool.or_comm (c == '\n')]
  rw [changesDebugTarget_eq, heither, Text.splitChars_or, List.any_flatMap]
  rfl

theorem unquoted_of_ne {c : Char} (h : c ≠ '\x22') : unquoted c = c := if_neg h

theorem ne_quote_of_isWhitespace {c : Char} (h : Text.isWhitespace c = true) : c ≠ '\x22' := by
  intro heq
  rw [heq] at h
  cases h

theorem takeWhile_unquoted {text : List Char}
    (h : '\x22' ∉ text.takeWhile fun c => !Text.isWhitespace c) :
    (text.map unquoted).takeWhile (fun c => !Text.isWhitespace c) =
      text.takeWhile fun c => !Text.isWhitespace c := by
  induction text with
  | nil => rfl
  | cons c rest ih =>
    rw [List.map_cons]
    cases hwhite : Text.isWhitespace c with
    | true =>
      rw [unquoted_of_ne (ne_quote_of_isWhitespace hwhite), List.takeWhile_cons_of_neg,
        List.takeWhile_cons_of_neg] <;> simp [hwhite]
    | false =>
      rw [List.takeWhile_cons_of_pos (by simp [hwhite]), List.mem_cons, not_or] at h
      rw [unquoted_of_ne (Ne.symm h.1), List.takeWhile_cons_of_pos (by simp [hwhite]),
        List.takeWhile_cons_of_pos (by simp [hwhite]), ih h.2]

/-- A first word without a quote is the first word of the text without its quotes. -/
theorem word_unquoted {text : List Char}
    (h : '\x22' ∉ (text.dropWhile Text.isWhitespace).takeWhile fun c => !Text.isWhitespace c) :
    ((text.map unquoted).dropWhile Text.isWhitespace).takeWhile (fun c => !Text.isWhitespace c) =
      (text.dropWhile Text.isWhitespace).takeWhile fun c => !Text.isWhitespace c := by
  induction text with
  | nil => rfl
  | cons c rest ih =>
    rw [List.map_cons]
    cases hwhite : Text.isWhitespace c with
    | true =>
      rw [List.dropWhile_cons_of_pos hwhite] at h ⊢
      rw [unquoted_of_ne (ne_quote_of_isWhitespace hwhite), List.dropWhile_cons_of_pos hwhite]
      exact ih h
    | false =>
      have hstop : ¬ Text.isWhitespace c = true := by simp [hwhite]
      rw [List.dropWhile_cons_of_neg hstop] at h ⊢
      have hne : c ≠ '\x22' := by
        rintro rfl
        apply h
        rw [List.takeWhile_cons_of_pos (by simp [hwhite])]
        exact List.mem_cons_self
      rw [unquoted_of_ne hne, List.dropWhile_cons_of_neg hstop]
      have hmapped := takeWhile_unquoted h
      rw [List.map_cons, unquoted_of_ne hne] at hmapped
      exact hmapped

theorem controls_unquoted {segment : List Char} (h : controls segment = true) :
    controls (segment.map unquoted) = true := by
  simp only [controls, Text.firstWord, String.toList_ofList] at h ⊢
  rw [word_unquoted]
  · exact h
  · intro hmem
    have hnone := not_retires_of_mem hmem rfl (by decide)
    rw [List.isEmpty_eq_false_iff.mpr (List.ne_nil_of_mem hmem)] at h
    simp only [Bool.false_eq_true, if_false, Option.any_some, hnone] at h

theorem names_unquoted {line : List Char} (h : names line = true) :
    names (line.map unquoted) = true := by
  have hsemicolon (c : Char) : (unquoted c == ';') = (c == ';') := by
    by_cases hquote : c = '\x22'
    · rw [hquote]
      rfl
    · rw [unquoted_of_ne hquote]
  obtain ⟨segment, hmem, hcontrols⟩ := List.any_eq_true.mp h
  rw [names, Text.splitChars_map hsemicolon, List.any_map]
  exact List.any_eq_true.mpr ⟨segment, hmem, controls_unquoted hcontrols⟩

/-! ### The lines of a whole text -/

def EndsUnbalanced (text : String) : Prop := ∃ line ∈ (lines text).getLast?, Unbalanced line

theorem endsOpen_iff (line : List Char) (others : List (List Char)) :
    endsOpen false (line :: others) = true ↔
      ∃ last ∈ (line :: others).getLast?, Unbalanced last := by
  induction others generalizing line with
  | nil => simp [endsOpen, Unbalanced]
  | cons next others ih =>
    rw [List.getLast?_cons_cons]
    exact ih next

theorem lexQuotes_ended (text : String) :
    (lexQuotes false text.toList).2 = true ↔ EndsUnbalanced text := by
  obtain ⟨line, others, hlines⟩ := Text.exists_splitChars isLineBreak text.toList
  rw [(lexQuotes_lines false text.toList hlines).2, endsOpen_iff, EndsUnbalanced, lines, hlines]

theorem isLineBreak_unquoted (c : Char) : isLineBreak (unquoted c) = isLineBreak c := by
  by_cases hquote : c = '\x22'
  · rw [hquote]
    rfl
  · rw [unquoted_of_ne hquote]

theorem filter_unquoted (text : List Char) :
    (text.map unquoted).filter isLineBreak = text.filter isLineBreak := by
  induction text with
  | nil => rfl
  | cons c rest ih =>
    rw [List.map_cons, List.filter_cons, List.filter_cons, isLineBreak_unquoted, ih]
    by_cases hquote : c = '\x22'
    · rw [hquote]
      rfl
    · rw [unquoted_of_ne hquote]

theorem outsideQuotes_of_unbalanced {text : String} (h : EndsUnbalanced text) :
    (outsideQuotes text).toList = text.toList.map unquoted := by
  simp only [outsideQuotes, (lexQuotes_ended text).mpr h, if_true, String.toList_ofList]

theorem outsideQuotes_of_balanced {text : String} (h : ¬ EndsUnbalanced text) :
    (outsideQuotes text).toList = (lexQuotes false text.toList).1 := by
  simp only [outsideQuotes, mt (lexQuotes_ended text).mp h, if_false, String.toList_ofList,
    Bool.false_eq_true]

theorem lines_of_unbalanced {text : String} (h : EndsUnbalanced text) :
    lines (outsideQuotes text) = (lines text).map (List.map unquoted) := by
  rw [lines, outsideQuotes_of_unbalanced h, Text.splitChars_map isLineBreak_unquoted]
  rfl

theorem lines_of_balanced {text : String} (h : ¬ EndsUnbalanced text) :
    lines (outsideQuotes text) = (lines text).map visible := by
  obtain ⟨line, others, hlines⟩ := Text.exists_splitChars isLineBreak text.toList
  rw [lines, outsideQuotes_of_balanced h, (lexQuotes_lines false text.toList hlines).1, lines,
    hlines]
  rfl

def BlanksQuoted (text : String) : Prop :=
  List.Forall₂ OnlyQuoted (lines text) (lines (outsideQuotes text)) ∧
    (outsideQuotes text).toList.filter isLineBreak = text.toList.filter isLineBreak

def KeepsCommands (text : String) : Prop :=
  ∀ line ∈ lines text, Unbalanced line → ∀ segment ∈ Text.splitChars (· == ';') line,
    controls segment = true → changesDebugTarget (outsideQuotes text) = true

theorem keepsCommands_iff (text : String) : KeepsCommands text ↔
    ((∃ line ∈ lines text, Unbalanced line ∧ names line = true) →
      changesDebugTarget (outsideQuotes text) = true) := by
  simp only [KeepsCommands, names, List.any_eq_true]
  constructor
  · intro h hnamed
    obtain ⟨line, hline, hodd, segment, hsegment, hcontrols⟩ := hnamed
    exact h line hline hodd segment hsegment hcontrols
  · intro h line hline hodd segment hsegment hcontrols
    exact h ⟨line, hline, hodd, segment, hsegment, hcontrols⟩

theorem keeps_of_unbalanced {text : String} (h : EndsUnbalanced text) :
    BlanksQuoted text ∧ KeepsCommands text := by
  constructor
  · constructor
    · rw [lines_of_unbalanced h, List.forall₂_map_right_iff]
      apply List.forall₂_same.mpr
      intro line _
      exact onlyQuoted_unquoted line
    · rw [outsideQuotes_of_unbalanced h, filter_unquoted]
  · rw [keepsCommands_iff, changesDebugTarget_lines, lines_of_unbalanced h, List.any_map]
    intro hnamed
    obtain ⟨line, hline, -, hnames⟩ := hnamed
    exact List.any_eq_true.mpr ⟨line, hline, names_unquoted hnames⟩

theorem blanksQuoted_of_balanced {text : String} (h : ¬ EndsUnbalanced text) :
    BlanksQuoted text ↔ ∀ line ∈ lines text, Unbalanced line → NothingBehind line := by
  rw [BlanksQuoted, lines_of_balanced h, List.forall₂_map_right_iff, List.forall₂_same,
    outsideQuotes_of_balanced h, filter_lexQuotes]
  simp only [onlyQuoted_visible, and_true]

/-- Blanking hides no session-control command exactly when the last line is unbalanced, or
when only spaces stand behind the last quote of every unbalanced line and, where such a line
names a command, some line names one outside its quotes. -/
theorem quotes_hide_nothing_iff (text : String) :
    BlanksQuoted text ∧ KeepsCommands text ↔
      EndsUnbalanced text ∨
        (∀ line ∈ lines text, Unbalanced line → NothingBehind line) ∧
          ((∃ line ∈ lines text, Unbalanced line ∧ names line = true) →
            ∃ line ∈ lines text, names (visible line) = true) := by
  by_cases h : EndsUnbalanced text
  · exact iff_of_true (keeps_of_unbalanced h) (.inl h)
  · rw [blanksQuoted_of_balanced h, keepsCommands_iff, changesDebugTarget_lines,
      lines_of_balanced h, List.any_map, List.any_eq_true, or_iff_right h]
    rfl

/-- The quote of the first line is closed by nothing, and what stands behind it is lost. -/
theorem kill_hidden : ¬ (BlanksQuoted "\x22a; .kill\nfoo" ∧ KeepsCommands "\x22a; .kill\nfoo") := by
  intro h
  have hnone : changesDebugTarget (outsideQuotes "\x22a; .kill\nfoo") = false := by
    decide +kernel
  have hchanges := h.2 ['\x22', 'a', ';', ' ', '.', 'k', 'i', 'l', 'l'] (by decide +kernel) rfl
    [' ', '.', 'k', 'i', 'l', 'l'] (by decide +kernel) (by decide +kernel)
  rw [hnone] at hchanges
  cases hchanges

end WindbgMcp.Server
