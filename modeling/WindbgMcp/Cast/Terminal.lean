import WindbgMcp.Cast.Frame
import WindbgMcp.Library.Splitting

/-! What a frame does to a terminal: the only sequences in it are the module's own, and its
lines are terminal lines where no text that is shown on one line holds a newline. -/
namespace WindbgMcp.Cast
open WindbgMcp.Library
open WindbgMcp.KdConn (isControl)
open WindbgMcp.Record (Value Capped)

/-- No character is a control character but a tab, a newline or a carriage return directly
before one. -/
def Plain (text : List Char) : Prop :=
  ∀ before c after, text = before ++ c :: after → isControl c = true →
    c = '\t' ∨ c = '\n' ∨ (c = '\r' ∧ after.head? = some '\n')

inductive Styled : List Char → Prop
  | text {text : List Char} (plain : Plain text) : Styled text
  | style {text sequence rest : List Char} (plain : Plain text) (own : sequence ∈ styles)
      (styled : Styled rest) : Styled (text ++ sequence ++ rest)

theorem plain_of_forall {text : List Char}
    (h : ∀ c ∈ text, isControl c = true → c = '\t' ∨ c = '\n') : Plain text := by
  intro before c after hsplit hcontrol
  have hmem : c ∈ text := by
    rw [hsplit]
    exact List.mem_append_right before List.mem_cons_self
  exact (h c hmem hcontrol).imp_right Or.inl

theorem Plain.append {text other : List Char} (h : Plain text) (hother : Plain other) :
    Plain (text ++ other) := by
  intro before c after hsplit hcontrol
  rw [List.append_eq_append_iff] at hsplit
  rcases hsplit with ⟨front, rfl, hback⟩ | ⟨back, rfl, hback⟩
  · exact hother front c after hback hcontrol
  · cases back with
    | nil => exact hother [] c after hback.symm hcontrol
    | cons first back =>
      rw [List.cons_append, List.cons.injEq] at hback
      obtain ⟨rfl, rfl⟩ := hback
      apply (h before c back rfl hcontrol).imp_right
      apply Or.imp_right
      intro ⟨hreturn, hnext⟩
      refine ⟨hreturn, ?_⟩
      rw [List.head?_append, hnext]
      rfl

theorem plain_nil : Plain [] := plain_of_forall fun _ h => absurd h List.not_mem_nil

theorem plain_ending : Plain "\r\n".toList := by
  intro before c after hsplit hcontrol
  have hlist : "\r\n".toList = ['\r', '\n'] := by decide
  rw [hlist] at hsplit
  cases before with
  | nil =>
    cases hsplit
    exact Or.inr (Or.inr ⟨rfl, rfl⟩)
  | cons first before =>
    rw [List.cons_append, List.cons.injEq] at hsplit
    cases before with
    | nil =>
      cases hsplit.2
      exact Or.inr (Or.inl rfl)
    | cons second before => simp at hsplit

theorem styled_sequence {sequence : List Char} (h : sequence ∈ styles) : Styled sequence := by
  have hstyled := Styled.style plain_nil h (Styled.text plain_nil)
  rwa [List.nil_append, List.append_nil] at hstyled

theorem Styled.append {out other : List Char} (h : Styled out) (hother : Styled other) :
    Styled (out ++ other) := by
  induction h with
  | text hplain =>
    cases hother with
    | text hnext => exact Styled.text (hplain.append hnext)
    | style hnext hown hrest =>
      rw [List.append_assoc, ← List.append_assoc, ← List.append_assoc]
      exact Styled.style (hplain.append hnext) hown hrest
  | style hplain hown _ ih =>
    rw [List.append_assoc]
    exact Styled.style hplain hown ih

theorem styled_flatMap {α : Type} {items : List α} {f : α → List Char}
    (h : ∀ item ∈ items, Styled (f item)) : Styled (items.flatMap f) := by
  induction items with
  | nil => exact Styled.text plain_nil
  | cons item items ih =>
    rw [List.flatMap_cons]
    apply (h item List.mem_cons_self).append
    exact ih fun later hlater => h later (List.mem_cons_of_mem item hlater)

theorem escape_of_style :
    ∀ sequence ∈ styles, sequence.head? = some '\x1b' ∧ '\x1b' ∉ sequence.tail := by
  decide

theorem Plain.no_escape {text : List Char} (h : Plain text) : '\x1b' ∉ text := by
  intro hmem
  obtain ⟨before, after, hsplit⟩ := List.append_of_mem hmem
  rcases h before _ after hsplit (by decide) with hkind | hkind | hkind
  · exact absurd hkind (by decide)
  · exact absurd hkind (by decide)
  · exact absurd hkind.1 (by decide)

theorem Styled.escape {out before after : List Char} (h : Styled out)
    (hsplit : out = before ++ '\x1b' :: after) :
    ∃ sequence ∈ styles, sequence <+: '\x1b' :: after := by
  induction h generalizing before with
  | text hplain =>
    rw [hsplit] at hplain
    exact absurd (List.mem_append_right before List.mem_cons_self) hplain.no_escape
  | @style text sequence rest hplain hown _ ih =>
    rw [List.append_assoc, List.append_eq_append_iff] at hsplit
    rcases hsplit with ⟨front, rfl, hback⟩ | ⟨back, rfl, hback⟩
    · rw [List.append_eq_append_iff] at hback
      rcases hback with ⟨inner, rfl, hrest⟩ | ⟨inner, hsequence, hafter⟩
      · exact ih hrest
      · cases inner with
        | nil =>
          have hrest : rest = [] ++ '\x1b' :: after := hafter.symm
          exact ih hrest
        | cons c inner =>
          rw [List.cons_append, List.cons.injEq] at hafter
          obtain ⟨rfl, rfl⟩ := hafter
          -- A sequence has one escape, at its head.
          cases front with
          | nil => exact ⟨sequence, hown, by rw [hsequence]; exact ⟨rest, rfl⟩⟩
          | cons first front =>
            have hinside : '\x1b' ∈ sequence.tail := by
              rw [hsequence]
              exact List.mem_append_right front List.mem_cons_self
            exact absurd hinside (escape_of_style sequence hown).2
    · cases back with
      | nil => exact ⟨sequence, hown, rest, hback.symm⟩
      | cons c back =>
        rw [List.cons_append, List.cons.injEq] at hback
        rw [← hback.1] at hplain
        exact absurd (List.mem_append_right before List.mem_cons_self) hplain.no_escape

section Texts

theorem caret_not_control (c : Char) : isControl (caret c) = false := by
  unfold caret
  split
  · rename_i hlow
    have hcodes : ∀ code ≤ 0x1f, isControl (Char.ofNat (code + 0x40)) = false := by decide
    exact hcodes c.toNat hlow
  · decide

/-- What stands for a character of the transcript: the newline and the tab themselves, and
nothing else that is a control character. -/
theorem control_of_mem_visibleChar {c shown : Char} (h : shown ∈ visibleChar c)
    (hcontrol : isControl shown = true) : shown = c ∧ (c = '\t' ∨ c = '\n') := by
  unfold visibleChar at h
  split at h
  · rename_i hc
    rw [List.mem_singleton] at h
    exact ⟨h.trans hc.symm, Or.inr hc⟩
  · split at h
    · rename_i hc
      rw [List.mem_singleton] at h
      exact ⟨h.trans hc.symm, Or.inl hc⟩
    · exfalso
      revert hcontrol
      rw [imp_false, Bool.not_eq_true]
      split at h
      · rw [List.mem_pair] at h
        rcases h with rfl | rfl
        · decide
        · exact caret_not_control c
      · rename_i hc
        split at h
        · have hplain : "<U+2028>".toList.any isControl = false := by decide
          simpa using List.any_eq_false.mp hplain shown h
        · split at h
          · have hplain : "<U+2029>".toList.any isControl = false := by decide
            simpa using List.any_eq_false.mp hplain shown h
          · rw [List.mem_singleton.mp h, Bool.not_eq_true] at *
            exact hc

theorem visible_eq (text : List Char) : visible text = text.flatMap visibleChar := by
  unfold visible
  split
  · rfl
  · rename_i h
    have hkept : ∀ c ∈ text, visibleChar c = [c] := by
      intro c hc
      rw [Bool.not_eq_true, List.any_eq_false] at h
      have hplain := h c hc
      simp only [Bool.or_eq_true, decide_eq_true_eq, not_or, Bool.not_eq_true] at hplain
      obtain ⟨⟨hcontrol, hfirst⟩, hsecond⟩ := hplain
      unfold visibleChar
      rw [if_neg (by rintro rfl; exact absurd hcontrol (by decide)),
        if_neg (by rintro rfl; exact absurd hcontrol (by decide)), hcontrol,
        if_neg Bool.false_ne_true, if_neg hfirst, if_neg hsecond]
    induction text with
    | nil => rfl
    | cons c text ih =>
      rw [List.flatMap_cons, hkept c List.mem_cons_self, ← ih]
      · rfl
      · intro hany
        apply h
        rw [List.any_cons, hany, Bool.or_true]
      · exact fun later hlater => hkept later (List.mem_cons_of_mem c hlater)

theorem plain_visible (text : List Char) : Plain (visible text) := by
  rw [visible_eq]
  apply plain_of_forall
  intro shown hshown hcontrol
  obtain ⟨c, -, hc⟩ := List.mem_flatMap.mp hshown
  obtain ⟨rfl, hkind⟩ := control_of_mem_visibleChar hc hcontrol
  exact hkind

theorem mem_digits {count : Nat} {c : Char} (h : c ∈ digits count) : c.isDigit := by
  unfold digits at h
  rw [Nat.toString_eq_repr, Nat.toList_repr] at h
  exact Nat.isDigit_of_mem_toDigits (by decide) (by decide) h

theorem not_control_of_mem_digits {count : Nat} {c : Char} (h : c ∈ digits count) :
    isControl c = false := by
  have hdigit := Char.isDigit_iff_toNat.mp (mem_digits h)
  have hlow : '0'.toNat = 48 := rfl
  have hhigh : '9'.toNat = 57 := rfl
  unfold isControl
  simp only [Bool.or_eq_false_iff, Bool.and_eq_false_iff, decide_eq_false_iff_not]
  omega

end Texts

section Frames

theorem styled_of_any {text : List Char} (h : text.any isControl = false) : Styled text := by
  apply Styled.text
  apply plain_of_forall
  intro c hc hcontrol
  exact absurd hcontrol (List.any_eq_false.mp h c hc)

theorem styled_visible (text : List Char) : Styled (visible text) :=
  Styled.text (plain_visible text)

theorem styled_digits (count : Nat) : Styled (digits count) :=
  styled_of_any (List.any_eq_false.mpr fun _ hc => by simp [not_control_of_mem_digits hc])

theorem styled_line {text : List Char} (h : Styled text) : Styled (line text) :=
  h.append (Styled.text plain_ending)

theorem styled_reset : Styled reset := styled_sequence (by decide)

theorem styled_dim : Styled dim := styled_sequence (by decide)

theorem styled_note {colour : List Char} (h : colour ∈ styles) (text : String) :
    Styled (note colour text) := by
  apply styled_line
  apply Styled.append _ styled_reset
  apply Styled.append _ (styled_visible text.toList)
  exact (styled_sequence h).append (styled_of_any (by decide))

theorem styled_where {p : Prop} [Decidable p] {text : List Char} (h : Styled text) :
    Styled (if p then text else []) := by
  split
  · exact h
  · exact Styled.text plain_nil

theorem styled_renderArgs (render : Value → List Char) (args : Value) :
    Styled (renderArgs render args) := by
  apply (styled_visible (clipped render args)).append
  exact styled_where (styled_of_any (by decide))

theorem styled_elision {count : Nat} {words : List Char}
    (h : words.any isControl = false) :
    Styled (line (dim ++ "… ".toList ++ digits count ++ words ++ reset)) := by
  apply styled_line
  apply Styled.append _ styled_reset
  apply Styled.append _ (styled_of_any h)
  apply Styled.append _ (styled_digits count)
  exact styled_dim.append (styled_of_any (by decide))

theorem styled_body (text : Capped) (maxLines : Nat) : Styled (body text maxLines) := by
  unfold body
  split
  · exact Styled.text plain_nil
  · apply Styled.append
    · apply Styled.append
      · exact styled_flatMap fun shown _ => styled_line (styled_visible shown)
      · exact styled_where (styled_elision (by decide))
    · cases text.dropped with
      | none => exact Styled.text plain_nil
      | some dropped => exact styled_elision (by decide)

variable (render : Value → List Char) (upper : Char → List Char)

theorem styled_callFrame (maxLines : Nat) (event : Record.Event) :
    Styled (callFrame render upper maxLines event) := by
  cases event with
  | toolRequest request tool session args =>
    apply styled_line
    apply Styled.append _ styled_reset
    apply Styled.append
    · apply Styled.append _ styled_dim
      apply Styled.append _ (styled_of_any (by decide))
      apply Styled.append _ styled_reset
      apply Styled.append _ (styled_visible tool.toList)
      apply Styled.append _ (styled_sequence (by decide))
      apply Styled.append _ (styled_of_any (by decide))
      apply Styled.append _ styled_reset
      exact (styled_sequence (by decide)).append (styled_of_any (by decide))
    · cases args with
      | none => exact Styled.text plain_nil
      | some args => exact styled_renderArgs render args
  | toolResult request tool session elapsedMs verdict category text data =>
    apply Styled.append _ (Styled.text plain_ending)
    apply (styled_body text maxLines).append
    apply styled_line
    apply Styled.append _ styled_reset
    apply Styled.append _ (styled_of_any (by decide))
    apply Styled.append _ (styled_digits elapsedMs)
    apply Styled.append _ (styled_of_any (by decide))
    apply Styled.append _ styled_dim
    apply Styled.append
    · exact styled_dim.append (styled_of_any (by decide))
    · cases verdict with
      | ok =>
        apply Styled.append _ styled_reset
        exact (styled_sequence (by decide)).append (styled_of_any (by decide))
      | error =>
        apply Styled.append _ styled_reset
        exact (styled_sequence (by decide)).append (styled_of_any (by decide))
  | stop => exact styled_note (by decide) _
  | runTo => exact styled_note (by decide) _
  | mutation => exact styled_note (by decide) _
  | assertion => exact styled_note (by decide) _
  | batch =>
    apply styled_note
    split <;> decide

theorem styled_eventFrame (maxLines : Nat) (event : Event) :
    Styled (eventFrame render upper maxLines event) := by
  cases event with
  | start version =>
    apply styled_line
    apply Styled.append _ styled_reset
    apply Styled.append _ (styled_of_any (by decide))
    apply Styled.append _ (styled_visible version.toList)
    exact styled_dim.append (styled_of_any (by decide))
  | call event => exact styled_callFrame render upper maxLines event
  | sessionEnd =>
    apply styled_note
    split <;> decide
  | sessionOpen => exact styled_note (by decide) _
  | sessionState => exact styled_note (by decide) _
  | workerLost => exact styled_note (by decide) _
  | callTimeout => exact styled_note (by decide) _
  | interrupt => exact styled_note (by decide) _
  | shutdown => exact styled_note (by decide) _
  | leaseExpired => exact styled_note (by decide) _
  | oversized => exact styled_note (by decide) _

theorem line_ne_nil (text : List Char) : line text ≠ [] :=
  List.append_ne_nil_of_right_ne_nil text (by decide)

theorem eventFrame_ne_nil (maxLines : Nat) (event : Event) :
    eventFrame render upper maxLines event ≠ [] := by
  cases event with
  | call event =>
    cases event with
    | toolResult => exact List.append_ne_nil_of_right_ne_nil _ (by decide)
    | _ => exact line_ne_nil _
  | _ => exact line_ne_nil _

theorem frame_eq (record : Entry) (maxLines : Nat) :
    frame render upper record maxLines = some (eventFrame render upper maxLines record.event) := by
  unfold frame
  exact if_neg (eventFrame_ne_nil render upper maxLines record.event)

/-- A frame is plain text with the module's sequences in it, and every escape in it begins
one of these. -/
theorem frame_styled (record : Entry) (maxLines : Nat) :
    ∃ out, frame render upper record maxLines = some out ∧ Styled out ∧
      ∀ before after, out = before ++ '\x1b' :: after →
        ∃ sequence ∈ styles, sequence <+: '\x1b' :: after := by
  have hstyled := styled_eventFrame render upper maxLines record.event
  exact ⟨_, frame_eq render upper record maxLines, hstyled, fun _ _ => hstyled.escape⟩

end Frames

section Lines

def Returned (out : List Char) : Prop :=
  ∀ before after, out = before ++ '\n' :: after → before.getLast? = some '\r'

theorem returned_nil : Returned [] := by
  intro before after hsplit
  cases before <;> cases hsplit

theorem returned_append {out other : List Char} (h : out.getLast? ≠ some '\r') :
    Returned (out ++ other) ↔ Returned out ∧ Returned other := by
  constructor
  · intro hboth
    constructor
    · intro before after hsplit
      apply hboth before (after ++ other)
      rw [hsplit, List.append_assoc, List.cons_append]
    · intro before after hsplit
      have hlast := hboth (out ++ before) after (by rw [hsplit, List.append_assoc])
      rw [List.getLast?_append] at hlast
      cases hbefore : before.getLast? with
      | none =>
        rw [hbefore] at hlast
        exact absurd hlast h
      | some last =>
        rw [hbefore] at hlast
        exact hlast
  · intro ⟨hfirst, hsecond⟩ before after hsplit
    rw [List.append_eq_append_iff] at hsplit
    rcases hsplit with ⟨front, rfl, hback⟩ | ⟨back, rfl, hback⟩
    · rw [List.getLast?_append, hsecond front after hback]
      rfl
    · cases back with
      | nil =>
        have hnone := hsecond [] after hback.symm
        cases hnone
      | cons first back =>
        rw [List.cons_append, List.cons.injEq] at hback
        apply hfirst before back
        rw [hback.1]

theorem getLast_line (text : List Char) : (line text).getLast? ≠ some '\r' := by
  unfold line
  have hending : "\r\n".toList = ['\r'] ++ ['\n'] := by decide
  rw [hending, ← List.append_assoc, List.getLast?_concat]
  decide

/-- A line is a terminal line if its text, which holds no carriage return, holds no newline
either. -/
theorem returned_line_iff {text : List Char} (h : '\r' ∉ text) :
    Returned (line text) ↔ '\n' ∉ text := by
  constructor
  · intro hreturned hmem
    obtain ⟨before, after, rfl⟩ := List.append_of_mem hmem
    have hlast := hreturned before (after ++ "\r\n".toList)
      (by unfold line; rw [List.append_assoc, List.cons_append])
    exact h (List.mem_append_left _ (List.mem_of_getLast? hlast))
  · intro hmem before after hsplit
    have hending : "\r\n".toList = ['\r', '\n'] := by decide
    unfold line at hsplit
    rw [hending, List.append_eq_append_iff] at hsplit
    rcases hsplit with ⟨front, rfl, hback⟩ | ⟨back, rfl, hback⟩
    · cases front with
      | nil => cases hback
      | cons first front =>
        rw [List.cons_append, List.cons.injEq] at hback
        cases front with
        | nil =>
          rw [← hback.1]
          exact List.getLast?_concat
        | cons second front => simp at hback
    · cases back with
      | nil => cases hback
      | cons first back =>
        rw [List.cons_append, List.cons.injEq] at hback
        rw [← hback.1] at hmem
        exact absurd (List.mem_append_right before List.mem_cons_self) hmem

theorem return_not_mem_visible (text : List Char) : '\r' ∉ visible text := by
  intro hmem
  rw [visible_eq] at hmem
  obtain ⟨c, -, hc⟩ := List.mem_flatMap.mp hmem
  obtain ⟨rfl, hkind⟩ := control_of_mem_visibleChar hc (by decide)
  exact absurd hkind (by decide)

theorem newline_mem_visible (text : List Char) : '\n' ∈ visible text ↔ '\n' ∈ text := by
  rw [visible_eq, List.mem_flatMap]
  constructor
  · intro ⟨c, hc, hshown⟩
    obtain ⟨rfl, -⟩ := control_of_mem_visibleChar hshown (by decide)
    exact hc
  · intro hmem
    exact ⟨'\n', hmem, by decide⟩

theorem returned_note_iff {colour : List Char} (h : colour ∈ styles) (text : String) :
    Returned (note colour text) ↔ '\n' ∉ text.toList := by
  have hstyles : ∀ sequence ∈ styles, '\r' ∉ sequence ∧ '\n' ∉ sequence := by decide
  have hmark : '\r' ∉ "  · ".toList ∧ '\n' ∉ "  · ".toList := by decide
  have hreset : '\r' ∉ reset ∧ '\n' ∉ reset := by decide
  unfold note
  rw [returned_line_iff]
  · simp only [List.mem_append, (hstyles colour h).2, hmark.2, hreset.2, newline_mem_visible,
      false_or, or_false]
  · simp only [List.mem_append, (hstyles colour h).1, hmark.1, hreset.1,
      return_not_mem_visible, or_self, not_false_eq_true]

theorem returned_flatMap {α : Type} {items : List α} {f : α → List Char}
    (h : ∀ item ∈ items, Returned (f item) ∧ (f item).getLast? ≠ some '\r') :
    Returned (items.flatMap f) ∧ (items.flatMap f).getLast? ≠ some '\r' := by
  induction items with
  | nil => exact ⟨returned_nil, by simp⟩
  | cons item items ih =>
    obtain ⟨hreturned, hlast⟩ := h item List.mem_cons_self
    have hrest := ih fun later hlater => h later (List.mem_cons_of_mem item hlater)
    rw [List.flatMap_cons]
    refine ⟨(returned_append hlast).mpr ⟨hreturned, hrest.1⟩, ?_⟩
    rw [List.getLast?_append]
    cases hend : (items.flatMap f).getLast? with
    | none => exact hlast
    | some last =>
      rw [hend] at hrest
      exact hrest.2

theorem newline_not_mem_lines {text shown : List Char} (h : shown ∈ lines text) :
    '\n' ∉ shown := by
  have hpieces := @Text.not_mem_of_mem_splitChars (· = '\n') '\n' (by decide) text
  unfold lines at h
  dsimp only at h
  rcases List.mem_append.mp h with hended | hlast
  · obtain ⟨piece, hpiece, rfl⟩ := List.mem_map.mp hended
    have hout := hpieces piece (List.dropLast_subset _ hpiece)
    split
    · exact fun hmem => hout (List.dropLast_subset _ hmem)
    · exact hout
  · split at hlast
    · cases hlast
    · rw [List.mem_singleton] at hlast
      rw [hlast]
      rw [List.getLast?_eq_some_getLast (Text.splitChars_ne_nil (· = '\n') text)]
      exact hpieces _ (List.getLast_mem _)

theorem not_mem_digits {c : Char} (hcontrol : isControl c = true) (count : Nat) :
    c ∉ digits count := by
  intro hmem
  rw [not_control_of_mem_digits hmem] at hcontrol
  cases hcontrol

theorem returned_elision {count : Nat} {words : List Char}
    (h : '\r' ∉ words ∧ '\n' ∉ words) :
    Returned (line (dim ++ "… ".toList ++ digits count ++ words ++ reset)) := by
  have hdim : '\r' ∉ dim ∧ '\n' ∉ dim := by decide
  have hmark : '\r' ∉ "… ".toList ∧ '\n' ∉ "… ".toList := by decide
  have hreset : '\r' ∉ reset ∧ '\n' ∉ reset := by decide
  have hdigits : '\r' ∉ digits count ∧ '\n' ∉ digits count :=
    ⟨not_mem_digits (by decide) count, not_mem_digits (by decide) count⟩
  rw [returned_line_iff]
  · simp only [List.mem_append, hdim, hmark, hdigits, h, hreset, or_self, not_false_eq_true]
  · simp only [List.mem_append, hdim, hmark, hdigits, h, hreset, or_self, not_false_eq_true]

theorem returned_body (text : Capped) (maxLines : Nat) :
    Returned (body text maxLines) ∧ (body text maxLines).getLast? ≠ some '\r' := by
  have hnil : Returned [] ∧ ([] : List Char).getLast? ≠ some '\r' :=
    ⟨returned_nil, by decide⟩
  have hline {text : List Char} (h : Returned (line text)) :
      Returned (line text) ∧ (line text).getLast? ≠ some '\r' := ⟨h, getLast_line text⟩
  have happend {out other : List Char} (h : Returned out ∧ out.getLast? ≠ some '\r')
      (hother : Returned other ∧ other.getLast? ≠ some '\r') :
      Returned (out ++ other) ∧ (out ++ other).getLast? ≠ some '\r' := by
    refine ⟨(returned_append h.2).mpr ⟨h.1, hother.1⟩, ?_⟩
    rw [List.getLast?_append]
    cases hend : other.getLast? with
    | none => exact h.2
    | some last =>
      rw [hend] at hother
      exact hother.2
  unfold body
  split
  · exact hnil
  · apply happend
    · apply happend
      · apply returned_flatMap
        intro shown hshown
        apply hline
        rw [returned_line_iff (return_not_mem_visible shown), newline_mem_visible]
        exact newline_not_mem_lines (List.mem_of_mem_take hshown)
      · generalize hhidden : (lines text.text.toList).length - _ = hidden
        split
        · exact hline (returned_elision (by decide))
        · exact hnil
    · cases text.dropped with
      | none => exact hnil
      | some dropped => exact hline (returned_elision (by decide))

end Lines

section Shown
variable (render : Value → List Char) (upper : Char → List Char)

def callShown : Record.Event → List String
  | .toolRequest _ tool _ args =>
    tool :: args.toList.map fun args => String.ofList (clipped render args)
  | .toolResult .. => []
  | .stop _ _ command stoppedAt _ _ targetGone =>
    command :: if targetGone then [] else stoppedAt.toList
  | .runTo _ _ verdict target stoppedAt =>
    target :: toUppercase upper verdict :: stoppedAt.toList
  | .mutation _ _ _ detail step => detail.text :: step.toList.map Capped.text
  | .assertion _ _ step detail => [step.text, detail.text]
  | .batch _ _ outcome _ _ _ _ after _ => [toUppercase upper outcome, after]

/-- The texts of a record that its frame shows on one line: all that it shows but those of
a result. -/
def shown : Event → List String
  | .start version _ _ _ => [version]
  | .call event => callShown render upper event
  | .sessionOpen session kind target _ => [session, kind, target.text]
  | .sessionState session state detail =>
    session :: state :: detail.toList.map Capped.text
  | .sessionEnd session _ _ _ => [session]
  | .workerLost session detail => [session, detail.text]
  | .callTimeout session _ => [session]
  | .interrupt session _ _ => [session]
  | .shutdown _ => []
  | .leaseExpired _ => []
  | .oversized kind _ => [kind]

theorem newline_not_mem_toDigits (count : Nat) : '\n' ∉ Nat.toDigits 10 count := by
  intro hmem
  exact absurd (Nat.isDigit_of_mem_toDigits (by decide) (by decide) hmem) (by decide)

theorem newline_mem_renderArgs (args : Value) :
    '\n' ∈ renderArgs render args ↔ '\n' ∈ clipped render args := by
  unfold renderArgs
  rw [List.mem_append, newline_mem_visible]
  split <;> simp

theorem return_not_mem_renderArgs (args : Value) : '\r' ∉ renderArgs render args := by
  unfold renderArgs
  rw [List.mem_append, not_or]
  refine ⟨return_not_mem_visible _, ?_⟩
  split <;> simp

theorem returned_callFrame_iff (maxLines : Nat) (event : Record.Event) :
    Returned (callFrame render upper maxLines event) ↔
      ∀ text ∈ callShown render upper event, '\n' ∉ text.toList := by
  cases event with
  | toolRequest request tool session args =>
    have hreturn : '\r' ∉ prompt ∧ '\r' ∉ toolStyle ∧ '\r' ∉ reset ∧ '\r' ∉ dim := by decide
    have hnewline : '\n' ∉ prompt ∧ '\n' ∉ toolStyle ∧ '\n' ∉ reset ∧ '\n' ∉ dim := by decide
    rw [callFrame, returned_line_iff]
    · cases args with
      | none => simp [callShown, hnewline, newline_mem_visible]
      | some args => simp [callShown, hnewline, newline_mem_visible, newline_mem_renderArgs]
    · cases args with
      | none => simp [hreturn, return_not_mem_visible]
      | some args => simp [hreturn, return_not_mem_visible, return_not_mem_renderArgs]
  | toolResult request tool session elapsedMs verdict category text data =>
    have hbody := returned_body text maxLines
    have hmark : '\r' ∉ okStyle ∧ '\r' ∉ failStyle ∧ '\r' ∉ reset ∧ '\r' ∉ dim := by decide
    have hline : '\n' ∉ okStyle ∧ '\n' ∉ failStyle ∧ '\n' ∉ reset ∧ '\n' ∉ dim := by decide
    have hreturn := @not_mem_digits '\r' (by decide) elapsedMs
    have hnewline := @not_mem_digits '\n' (by decide) elapsedMs
    apply iff_of_true
    · rw [callFrame.eq_def]
      dsimp only
      rw [List.append_assoc, returned_append hbody.2]
      refine ⟨hbody.1, ?_⟩
      rw [returned_append (getLast_line _)]
      constructor
      · rw [returned_line_iff]
        · cases verdict <;> simp [hline, hnewline]
        · cases verdict <;> simp [hmark, hreturn]
      · have hending : "\r\n".toList = line [] := rfl
        rw [hending, returned_line_iff List.not_mem_nil]
        exact List.not_mem_nil
    · exact fun text htext => absurd htext List.not_mem_nil
  | stop request session command stoppedAt interrupted timedOut targetGone =>
    rw [callFrame, returned_note_iff (by decide)]
    cases targetGone with
    | true => simp [callShown]
    | false =>
      cases stoppedAt <;> cases interrupted <;> cases timedOut <;> simp [callShown]
  | runTo request session verdict target stoppedAt =>
    rw [callFrame, returned_note_iff (by decide)]
    cases stoppedAt <;> simp [callShown]
  | mutation request session kind detail step =>
    rw [callFrame, returned_note_iff (by decide)]
    cases step <;> simp [callShown]
  | assertion request session step detail =>
    rw [callFrame, returned_note_iff (by decide)]
    simp [callShown]
  | batch request session outcome atStep committed rollbackComplete rollback after elapsedMs =>
    rw [callFrame, returned_note_iff (by split <;> decide)]
    have hundone : '\n' ∉ (undone rollback rollbackComplete).toList := by
      unfold undone
      split
      · decide
      · split
        · decide
        · split <;> decide
    cases atStep <;> simp [callShown, hundone, newline_not_mem_toDigits]

theorem returned_eventFrame_iff (maxLines : Nat) (event : Event) :
    Returned (eventFrame render upper maxLines event) ↔
      ∀ text ∈ shown render upper event, '\n' ∉ text.toList := by
  cases event with
  | call event => exact returned_callFrame_iff render upper maxLines event
  | start version pid fieldLimit schema =>
    have hreturn : '\r' ∉ dim ∧ '\r' ∉ reset := by decide
    have hnewline : '\n' ∉ dim ∧ '\n' ∉ reset := by decide
    rw [eventFrame, returned_line_iff]
    · simp [shown, hnewline, newline_mem_visible]
    · simp [hreturn, return_not_mem_visible]
  | sessionOpen session kind target enginePid =>
    rw [eventFrame, returned_note_iff (by decide)]
    simp [shown, newline_not_mem_toDigits]
  | sessionState session state detail =>
    rw [eventFrame, returned_note_iff (by decide)]
    cases detail <;> simp [shown, suffix]
  | sessionEnd session released workerTerminated waitedMs =>
    rw [eventFrame, returned_note_iff (by split <;> decide)]
    cases released <;> simp [shown]
  | workerLost session detail =>
    rw [eventFrame, returned_note_iff (by decide)]
    simp [shown]
  | callTimeout session budgetMs =>
    rw [eventFrame, returned_note_iff (by decide)]
    simp [shown, newline_not_mem_toDigits]
  | interrupt session delivered detail =>
    rw [eventFrame, returned_note_iff (by decide)]
    cases delivered <;> simp [shown]
  | shutdown sessions =>
    rw [eventFrame, returned_note_iff (by decide)]
    simp [shown, newline_not_mem_toDigits]
  | leaseExpired sessions =>
    rw [eventFrame, returned_note_iff (by decide)]
    simp [shown, newline_not_mem_toDigits]
  | oversized kind bytes =>
    rw [eventFrame, returned_note_iff (by decide)]
    simp [shown, newline_not_mem_toDigits]

/-- A frame is made of terminal lines if and only if none of the texts that it shows on one
line holds a newline. -/
theorem frame_returned_iff (record : Entry) (maxLines : Nat) :
    (∀ out, frame render upper record maxLines = some out → Returned out) ↔
      ∀ text ∈ shown render upper record.event, '\n' ∉ text.toList := by
  rw [frame_eq, ← returned_eventFrame_iff render upper maxLines record.event]
  constructor
  · exact fun h => h _ rfl
  · intro h out hout
    rwa [← Option.some.inj hout]

def twoLines : Entry where
  run := 0
  seq := 0
  stamp := "1970-01-01T00:00:00.000Z"
  monoMs := 0
  event := .sessionState "s1" "failed" (some ⟨"first\nsecond", none⟩)

theorem frame_twoLines :
    ∃ out, frame (fun _ => []) (fun c => [c]) twoLines 0 = some out ∧ ¬Returned out := by
  refine ⟨_, frame_eq _ _ twoLines 0, ?_⟩
  intro h
  have hlast := h ("\x1b[34m  · session s1 → failed — first".toList)
    ("second\x1b[0m\r\n".toList) (by decide)
  exact absurd hlast (by decide)

end Shown

end WindbgMcp.Cast
