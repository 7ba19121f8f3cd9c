import WindbgMcp.SavedState.Lines

/-! Headers that are read a line at a time as C reads them: every enumerator stands on a line of
its own with its value and its comma, in front of any remark, and every other comment on lines
that are passed over. -/
namespace WindbgMcp.SavedState
open Library Library.Text

/-! ### What C makes of a line -/

def Unmarked (c : Char) : Prop :=
  c ≠ '/' ∧ c ≠ ',' ∧ c ≠ '(' ∧ c ≠ ')' ∧ c ≠ Scan.quoteMark

instance : DecidablePred Unmarked := fun _ => inferInstanceAs (Decidable (_ ∧ _))

theorem unmarked_of_blank {c : Char} (h : isWhitespace c = true) : Unmarked c := by
  refine ⟨?_, ?_, ?_, ?_, ?_⟩
  all_goals
    rintro rfl
    revert h
    decide

theorem run_append (scan : Scan) (front back : List Char) :
    scan.run (front ++ back) = (scan.run front).run back :=
  List.foldl_append

theorem run_unmarked {text : List Char} (h : ∀ c ∈ text, Unmarked c) (piece : List Char)
    (done : List (List Char)) :
    Scan.run ⟨.code, 0, piece, done⟩ text = ⟨.code, 0, piece ++ text, done⟩ := by
  induction text generalizing piece with
  | nil => rw [List.append_nil]; rfl
  | cons c text ih =>
    obtain ⟨hc, htext⟩ := List.forall_mem_cons.mp h
    obtain ⟨hslash, hcomma, hopen, hclose, hquote⟩ := hc
    have hstep : Scan.step ⟨.code, 0, piece, done⟩ c = ⟨.code, 0, piece ++ [c], done⟩ := by
      simp [Scan.step, Scan.code, Scan.push, hslash, hcomma, hopen, hclose, hquote]
    change Scan.run (Scan.step ⟨.code, 0, piece, done⟩ c) text = _
    rw [hstep, ih htext, List.append_assoc]
    rfl

theorem run_blank {space : List Char} (h : Blank space) (piece : List Char)
    (done : List (List Char)) :
    Scan.run ⟨.code, 0, piece, done⟩ space = ⟨.code, 0, piece ++ space, done⟩ :=
  run_unmarked (fun c hc => unmarked_of_blank (h c hc)) piece done

theorem run_comma (piece : List Char) (done : List (List Char)) (rest : List Char) :
    Scan.run ⟨.code, 0, piece, done⟩ (',' :: rest) =
      Scan.run ⟨.code, 0, [], done ++ [piece]⟩ rest := rfl

theorem run_remark {remark : List Char} (h : '\n' ∉ remark) (piece : List Char)
    (done : List (List Char)) (rest : List Char) :
    Scan.run ⟨.code, 0, piece, done⟩ ('/' :: '/' :: (remark ++ '\n' :: rest)) =
      Scan.run ⟨.code, 0, piece ++ ['\n'], done⟩ rest := by
  change Scan.run ⟨.line, 0, piece, done⟩ (remark ++ '\n' :: rest) = _
  induction remark with
  | nil => rfl
  | cons c remark ih =>
    rw [List.mem_cons, not_or] at h
    have hstep : Scan.step ⟨.line, 0, piece, done⟩ c = ⟨.line, 0, piece, done⟩ := by
      simp [Scan.step, Ne.symm h.1]
    change Scan.run (Scan.step ⟨.line, 0, piece, done⟩ c) (remark ++ '\n' :: rest) = _
    rw [hstep, ih h.2]

/-- A comment goes on to the first star with a slash behind it, from inside it and from behind
a star alike. -/
theorem run_block (piece : List Char) (done : List (List Char)) (rest note : List Char) :
    (¬ ['*', '/'] <:+: note ++ ['*'] →
      Scan.run ⟨.block, 0, piece, done⟩ (note ++ '*' :: '/' :: rest) =
        Scan.run ⟨.code, 0, piece, done⟩ rest) ∧
    (¬ ['*', '/'] <:+: '*' :: (note ++ ['*']) →
      Scan.run ⟨.star, 0, piece, done⟩ (note ++ '*' :: '/' :: rest) =
        Scan.run ⟨.code, 0, piece, done⟩ rest) := by
  induction note with
  | nil => exact ⟨fun _ => rfl, fun _ => rfl⟩
  | cons c note ih =>
    have hlater {text : List Char} {d : Char} (h : ¬ ['*', '/'] <:+: d :: text) :
        ¬ ['*', '/'] <:+: text := fun hoccurs => h (List.infix_cons hoccurs)
    constructor
    · intro h
      change Scan.run (Scan.step ⟨.block, 0, piece, done⟩ c) (note ++ '*' :: '/' :: rest) = _
      by_cases hstar : c = '*'
      · subst hstar
        exact ih.2 h
      · rw [show Scan.step ⟨.block, 0, piece, done⟩ c = ⟨.block, 0, piece, done⟩ by
          simp [Scan.step, hstar]]
        exact ih.1 (hlater h)
    · intro h
      change Scan.run (Scan.step ⟨.star, 0, piece, done⟩ c) (note ++ '*' :: '/' :: rest) = _
      have hslash : c ≠ '/' := by
        rintro rfl
        exact h (List.IsPrefix.isInfix ⟨note ++ ['*'], rfl⟩)
      by_cases hstar : c = '*'
      · subst hstar
        exact ih.2 (hlater h)
      · rw [show Scan.step ⟨.star, 0, piece, done⟩ c = ⟨.block, 0, piece, done⟩ by
          simp [Scan.step, Scan.inside, hslash, hstar]]
        exact ih.1 (hlater (hlater h))

theorem run_note {note : List Char} (h : ¬ ['*', '/'] <:+: note ++ ['*']) (piece : List Char)
    (done : List (List Char)) (rest : List Char) :
    Scan.run ⟨.code, 0, piece, done⟩ ('/' :: '*' :: (note ++ '*' :: '/' :: rest)) =
      Scan.run ⟨.code, 0, piece ++ [' '], done⟩ rest :=
  (run_block (piece ++ [' ']) done rest note).1 h

/-! ### Lines that are read as C reads them -/

/-- Blanks to the end of a line, and perhaps a remark. -/
inductive LineEnd : List Char → Prop
  | blank {space : List Char} : Blank space → '\n' ∉ space → LineEnd space
  | remark {space remark : List Char} : Blank space → '\n' ∉ space → '\n' ∉ remark →
      LineEnd (space ++ '/' :: '/' :: remark)

/-- A text of whole lines, with the enumerators on them: where `more` may be, and elsewhere no
further one. -/
inductive LineWise : Bool → List Char → List Entry → Prop
  | close {more : Bool} {space : List Char} : Blank space → '\n' ∉ space →
      LineWise more space []
  | blank {more : Bool} {line rest : List Char} {entries : List Entry} : LineEnd line →
      LineWise more rest entries → LineWise more (line ++ '\n' :: rest) entries
  | note {more : Bool} {space note behind rest : List Char} {entries : List Entry} :
      Blank space → ¬ ['*', '/'] <:+: note ++ ['*'] → LineEnd behind →
      (∀ line ∈ splitChars (· = '\n') (space ++ '/' :: '*' :: (note ++ '*' :: '/' :: behind)),
        readLine line = none) →
      LineWise more rest entries →
      LineWise more (space ++ '/' :: '*' :: (note ++ '*' :: '/' :: behind) ++ '\n' :: rest) entries
  | entry {text behind rest : List Char} {entry : Entry} {entries : List Entry} :
      (∀ c ∈ text, Unmarked c) → '\n' ∉ text → enumerator text = some entry → LineEnd behind →
      LineWise true rest entries →
      LineWise true (text ++ ',' :: behind ++ '\n' :: rest) (entry :: entries)
  | last {text behind rest : List Char} {entry : Entry} :
      (∀ c ∈ text, Unmarked c) → '\n' ∉ text → enumerator text = some entry → LineEnd behind →
      LineWise false rest [] →
      LineWise true (text ++ behind ++ '\n' :: rest) [entry]

theorem blank_append {space more : List Char} (h : Blank space) (hmore : Blank more) :
    Blank (space ++ more) :=
  List.forall_mem_append.mpr ⟨h, hmore⟩

def Passes (line : List Char) : Prop :=
  ∀ piece done, ∃ space, Blank space ∧ ∀ rest,
    Scan.run ⟨.code, 0, piece, done⟩ (line ++ '\n' :: rest) =
      Scan.run ⟨.code, 0, piece ++ space, done⟩ rest

theorem LineEnd.passes {line : List Char} (h : LineEnd line) : Passes line := by
  have hbreak : Blank ['\n'] := by decide
  intro piece done
  cases h with
  | blank hspace hline =>
    refine ⟨line ++ ['\n'], blank_append hspace hbreak, ?_⟩
    intro rest
    rw [show line ++ '\n' :: rest = (line ++ ['\n']) ++ rest by simp, run_append,
      run_blank (blank_append hspace hbreak)]
  | @remark space remark hspace hline hremark =>
    refine ⟨space ++ ['\n'], blank_append hspace hbreak, ?_⟩
    intro rest
    rw [List.append_assoc, run_append, run_blank hspace]
    rw [List.cons_append, List.cons_append, run_remark hremark, List.append_assoc]

theorem note_passes {space note behind : List Char} (hspace : Blank space)
    (hnote : ¬ ['*', '/'] <:+: note ++ ['*']) (hbehind : LineEnd behind) :
    Passes (space ++ '/' :: '*' :: (note ++ '*' :: '/' :: behind)) := by
  intro piece done
  obtain ⟨later, hlater, hrun⟩ := hbehind.passes (piece ++ space ++ [' ']) done
  refine ⟨space ++ ([' '] ++ later), ?_, ?_⟩
  · exact blank_append hspace (blank_append (by decide) hlater)
  · intro rest
    rw [show space ++ '/' :: '*' :: (note ++ '*' :: '/' :: behind) ++ '\n' :: rest =
        space ++ ('/' :: '*' :: (note ++ '*' :: '/' :: (behind ++ '\n' :: rest))) by simp,
      run_append, run_blank hspace, run_note hnote, hrun]
    simp

theorem LineWise.run {more : Bool} {body : List Char} {entries : List Entry}
    (h : LineWise more body entries) (piece : List Char) (done : List (List Char))
    (hpiece : more = true → Blank piece) :
    ∃ pieces last, Scan.run ⟨.code, 0, piece, done⟩ body = ⟨.code, 0, last, done ++ pieces⟩ ∧
      (more = true →
        (if Blank last then pieces else pieces ++ [last]).mapM enumerator = some entries) ∧
      (more = false → pieces = [] ∧ ∃ space, Blank space ∧ last = piece ++ space) := by
  have hpasses {more : Bool} {line rest piece : List Char} {done : List (List Char)}
      {entries : List Entry} (hline : Passes line) (hpiece : more = true → Blank piece)
      (ih : ∀ (piece : List Char) (done : List (List Char)), (more = true → Blank piece) →
        ∃ pieces last,
          Scan.run ⟨.code, 0, piece, done⟩ rest = ⟨.code, 0, last, done ++ pieces⟩ ∧
          (more = true →
            (if Blank last then pieces else pieces ++ [last]).mapM enumerator = some entries) ∧
          (more = false → pieces = [] ∧ ∃ space, Blank space ∧ last = piece ++ space)) :
      ∃ pieces last, Scan.run ⟨.code, 0, piece, done⟩ (line ++ '\n' :: rest) =
          ⟨.code, 0, last, done ++ pieces⟩ ∧
        (more = true →
          (if Blank last then pieces else pieces ++ [last]).mapM enumerator = some entries) ∧
        (more = false → pieces = [] ∧ ∃ space, Blank space ∧ last = piece ++ space) := by
    obtain ⟨space, hspace, hrun⟩ := hline piece done
    obtain ⟨pieces, last, hrest, hmore, hless⟩ := ih (piece ++ space) done
      fun h => blank_append (hpiece h) hspace
    refine ⟨pieces, last, (hrun rest).trans hrest, hmore, ?_⟩
    intro h
    obtain ⟨hpieces, later, hlater, rfl⟩ := hless h
    exact ⟨hpieces, space ++ later, blank_append hspace hlater, List.append_assoc _ _ _⟩
  induction h generalizing piece done with
  | @close more space hspace hline =>
    refine ⟨[], piece ++ space, ?_, ?_, ?_⟩
    · rw [run_blank hspace, List.append_nil]
    · intro hmore
      rw [if_pos (blank_append (hpiece hmore) hspace)]
      rfl
    · exact fun _ => ⟨rfl, space, hspace, rfl⟩
  | blank hline hrest ih => exact hpasses hline.passes hpiece ih
  | note hspace hnote hbehind hread hrest ih =>
    exact hpasses (note_passes hspace hnote hbehind) hpiece ih
  | @entry text behind rest entry entries htext hline hentry hbehind hrest ih =>
    obtain ⟨space, hspace, hrun⟩ := hbehind.passes [] (done ++ [piece ++ text])
    obtain ⟨pieces, last, hlast, hmore, -⟩ := ih ([] ++ space) (done ++ [piece ++ text])
      fun _ => hspace
    refine ⟨(piece ++ text) :: pieces, last, ?_, ?_, nofun⟩
    · rw [List.append_assoc, List.cons_append, run_append, run_unmarked htext, run_comma, hrun,
        hlast]
      simp
    · intro _
      have hfirst := (enumerator_blank_append (hpiece rfl) text).trans hentry
      have hpieces : (if Blank last then (piece ++ text) :: pieces
          else (piece ++ text) :: pieces ++ [last]) =
          (piece ++ text) :: if Blank last then pieces else pieces ++ [last] := by
        split <;> rfl
      rw [hpieces, List.mapM_cons, hfirst, hmore rfl]
      rfl
  | @last text behind rest entry htext hline hentry hbehind hrest ih =>
    obtain ⟨space, hspace, hrun⟩ := hbehind.passes (piece ++ text) done
    obtain ⟨pieces, last, hlast, -, hless⟩ := ih (piece ++ text ++ space) done nofun
    obtain ⟨rfl, later, hlater, rfl⟩ := hless rfl
    refine ⟨[], piece ++ text ++ space ++ later, ?_, ?_, nofun⟩
    · rw [List.append_assoc, run_append, run_unmarked htext, hrun, hlast]
    · intro _
      have hlast : enumerator (piece ++ text ++ space ++ later) = some entry := by
        rw [enumerator_append_blank hlater, enumerator_append_blank hspace,
          enumerator_blank_append (hpiece rfl), hentry]
      have hsolid : ¬ Blank (piece ++ text ++ space ++ later) := by
        intro hblank
        rw [enumerator_blank hblank] at hlast
        cases hlast
      rw [if_neg hsolid, List.nil_append, List.mapM_cons, hlast]
      rfl

theorem LineWise.enumerators {body : List Char} {entries : List Entry}
    (h : LineWise true body entries) : enumerators body = some entries := by
  obtain ⟨pieces, last, hrun, hpieces, -⟩ := h.run [] [] fun _ => List.forall_mem_nil _
  unfold SavedState.enumerators
  rw [show Scan.run {} body = Scan.run ⟨.code, 0, [], []⟩ body from rfl, hrun]
  exact hpieces rfl

/-! ### What the lines are read as -/

theorem LineEnd.not_newline {line : List Char} (h : LineEnd line) : '\n' ∉ line := by
  cases h with
  | blank _ hline => exact hline
  | remark _ hspace hremark => simp [hspace, hremark]

theorem slash_not_mem_blank {space : List Char} (h : Blank space) : '/' ∉ space :=
  fun hmem => (unmarked_of_blank (h '/' hmem)).1 rfl

theorem slash_not_mem {text : List Char} (h : ∀ c ∈ text, Unmarked c) : '/' ∉ text :=
  fun hmem => (h '/' hmem).1 rfl

theorem LineEnd.cut {line : List Char} (h : LineEnd line) :
    ∃ space, Blank space ∧
      ∀ front : List Char, '/' ∉ front → cut (front ++ line) = front ++ space := by
  cases h with
  | blank hspace _ =>
    refine ⟨line, hspace, ?_⟩
    intro front hfront
    apply cut_plain
    simp [hfront, slash_not_mem_blank hspace]
  | @remark space remark hspace _ _ =>
    refine ⟨space, hspace, ?_⟩
    intro front hfront
    rw [← List.append_assoc]
    apply cut_remark
    simp [hfront, slash_not_mem_blank hspace]

theorem LineWise.seen {more : Bool} {body : List Char} {entries : List Entry}
    (h : LineWise more body entries) : seen body = entries := by
  induction h with
  | close hspace hline => exact seen_blank hspace hline
  | blank hline hrest ih =>
    obtain ⟨space, hspace, hcut⟩ := hline.cut
    have hcode := hcut [] List.not_mem_nil
    rw [List.nil_append, List.nil_append] at hcode
    rw [seen_line hline.not_newline, ih, readLine_eq, hcode, readCode_blank hspace]
    rfl
  | note hspace hnote hbehind hread hrest ih =>
    rw [seen_append, ih, List.filterMap_eq_nil_iff.mpr hread, List.nil_append]
  | @entry text behind rest entry entries htext hline hentry hbehind hrest ih =>
    obtain ⟨space, hspace, hcut⟩ := hbehind.cut
    have hcode := hcut (text ++ [',']) (by simp [slash_not_mem htext])
    rw [List.append_assoc, List.append_assoc] at hcode
    have hnewline : '\n' ∉ text ++ ',' :: behind := by simp [hline, hbehind.not_newline]
    rw [seen_line hnewline, ih, readLine_eq, List.singleton_append.symm, hcode]
    rw [List.singleton_append,
      (readCode_enumerator (fun hmem => (htext ',' hmem).2.1 rfl) hentry hspace).2]
    rfl
  | @last text behind rest entry htext hline hentry hbehind hrest ih =>
    obtain ⟨space, hspace, hcut⟩ := hbehind.cut
    have hnewline : '\n' ∉ text ++ behind := by simp [hline, hbehind.not_newline]
    rw [seen_line hnewline, ih, readLine_eq, hcut text (slash_not_mem htext),
      (readCode_enumerator (fun hmem => (htext ',' hmem).2.1 rfl) hentry hspace).1]
    rfl

end WindbgMcp.SavedState
