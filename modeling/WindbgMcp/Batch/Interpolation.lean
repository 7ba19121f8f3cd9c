import WindbgMcp.Batch.Validation
import WindbgMcp.Library.Rewriting

/-! What interpolation leaves of a batch: a capture stands for a number, and neither it nor
the reference it is put for ends a command or names one. -/
namespace WindbgMcp.Batch

open Library Server

def retiresHandle (steps always : List BatchStep) : Bool :=
  (steps ++ always).any fun step =>
    match step.action with
    | .command line | .resume line _ => changesDebugTarget line
    | _ => false

def BatchStep.interpolated (resolve : String → Option String) (step : BatchStep) :
    Except String BatchStep := do
  let (action, checks) ← step.substituted resolve
  .ok { step with action := action, expect := checks }

/-! ## References and numbers -/

inductive Interpolation : List Char → List Char → Prop where
  | reference (name : List Char) (value : Nat) (hname : ∀ c ∈ name, isCaptureChar c = true) :
      Interpolation (opensReference ++ name ++ closesReference) (Text.hex value).toList

abbrev Interpolates (text out : String) : Prop :=
  Rewritten Interpolation text.toList out.toList

def ResolvesToHex (resolve : String → Option String) : Prop :=
  ∀ name put, resolve name = some put → ∃ value, put = Text.hex value

theorem isCaptureChar_hex (value : Nat) :
    ∀ c ∈ (Text.hex value).toList, isCaptureChar c = true := by
  obtain ⟨digits, hdigits, hsmall, -⟩ := Text.exists_toDigits value
  have hdigit : ∀ digit < 16, isCaptureChar digit.digitChar = true := by decide
  intro c hc
  rw [Text.hex, Text.hexDigits, hdigits, String.toList_append, String.toList_ofList,
    List.mem_append] at hc
  cases hc with
  | inl hfront =>
    have hall : ∀ c ∈ "0x".toList, isCaptureChar c = true :=
      Text.forall_mem_of_all (by decide)
    exact hall c hfront
  | inr hmem =>
    rw [String.toList_ofList] at hmem
    obtain ⟨digit, hdigitMem, rfl⟩ := List.mem_map.mp hmem
    exact hdigit digit (hsmall digit hdigitMem)

theorem interpolation_skips {p : Char → Bool} (hopens : p '\x7b' = false)
    (hcloses : p '\x7d' = false) (hchars : ∀ c, isCaptureChar c = true → p c = false) :
    Skips Interpolation p where
  run := by
    intro run put hreplaced c hc
    cases hreplaced with
    | reference name value hname =>
      simp only [opensReference, closesReference, List.mem_append, List.mem_cons,
        List.not_mem_nil, or_false, or_self] at hc
      obtain (rfl | hmem) | rfl := hc
      · exact hopens
      · exact hchars c (hname c hmem)
      · exact hcloses
  put := by
    intro run put hreplaced c hc
    cases hreplaced with
    | reference name value hname => exact hchars c (isCaptureChar_hex value c hc)

theorem toNat_of_isCaptureChar {c : Char} (h : isCaptureChar c = true) :
    48 ≤ c.toNat ∧ c.toNat ≤ 122 ∧ c.toNat ≠ 59 := by
  have hupper (h : c.isUpper = true) : 65 ≤ c.toNat ∧ c.toNat ≤ 90 := of_decide_eq_true h
  have hlower (h : c.isLower = true) : 97 ≤ c.toNat ∧ c.toNat ≤ 122 := by
    obtain ⟨hlow, hhigh⟩ := Bool.and_eq_true_iff.mp h
    exact ⟨of_decide_eq_true hlow, of_decide_eq_true hhigh⟩
  have hdigit (h : c.isDigit = true) : 48 ≤ c.toNat ∧ c.toNat ≤ 57 := by
    obtain ⟨hlow, hhigh⟩ := Bool.and_eq_true_iff.mp h
    exact ⟨of_decide_eq_true hlow, of_decide_eq_true hhigh⟩
  rw [isCaptureChar, Bool.or_eq_true] at h
  cases h with
  | inl halphanum =>
    unfold Char.isAlphanum Char.isAlpha at halphanum
    rw [Bool.or_eq_true, Bool.or_eq_true] at halphanum
    rcases halphanum with (h | h) | h
    · have hrange := hupper h
      omega
    · have hrange := hlower h
      omega
    · have hrange := hdigit h
      omega
  | inr hunderscore =>
    rw [beq_iff_eq.mp hunderscore]
    decide

def breaks (c : Char) : Bool := endsCommand c || c == '\x22'

theorem breaks_of_isCaptureChar (c : Char) (h : isCaptureChar c = true) : breaks c = false := by
  have hrange := toNat_of_isCaptureChar h
  have hne {other : Char} (hother : c.toNat ≠ other.toNat) : (c == other) = false :=
    beq_eq_false_iff_ne.mpr fun heq => hother (congrArg Char.toNat heq)
  rw [breaks, endsCommand, hne, hne, hne, hne]
  · rfl
  · change c.toNat ≠ 34
    omega
  · change c.toNat ≠ 13
    omega
  · change c.toNat ≠ 10
    omega
  · exact hrange.2.2

theorem endsCommand_of_breaks {c : Char} (h : breaks c = false) : endsCommand c = false := by
  apply Bool.eq_false_iff.mpr
  intro hends
  rw [breaks, hends] at h
  cases h

theorem isWhitespace_of_isCaptureChar (c : Char) (h : isCaptureChar c = true) :
    Text.isWhitespace c = false := by
  have hrange := toNat_of_isCaptureChar h
  simp only [Text.isWhitespace, Bool.or_eq_false_iff, Bool.and_eq_false_iff, beq_eq_false_iff_ne,
    decide_eq_false_iff_not]
  omega

theorem breaks_skips : Skips Interpolation breaks :=
  interpolation_skips rfl rfl breaks_of_isCaptureChar

theorem endsCommand_skips : Skips Interpolation endsCommand :=
  interpolation_skips rfl rfl fun c h => endsCommand_of_breaks (breaks_of_isCaptureChar c h)

theorem isWhitespace_skips : Skips Interpolation Text.isWhitespace :=
  interpolation_skips rfl rfl isWhitespace_of_isCaptureChar

/-! ## The commands of a text -/

theorem interpolation_marks {run put : List Char} (h : Interpolation run put) :
    '\x7b' ∈ run ∧ '0' ∈ put := by
  cases h with
  | reference name value hname =>
    refine ⟨List.mem_append_left _ (List.mem_append_left _ List.mem_cons_self), ?_⟩
    rw [Text.hex, String.toList_append]
    exact List.mem_append_left _ List.mem_cons_self

theorem controls_eq {segment put : List Char} (h : Rewritten Interpolation segment put) :
    controls segment = controls put := by
  have hnonempty {run put : List Char} (h : Interpolation run put) : run ≠ [] ∧ put ≠ [] :=
    ⟨List.ne_nil_of_mem (interpolation_marks h).1, List.ne_nil_of_mem (interpolation_marks h).2⟩
  have hword := (h.dropWhile isWhitespace_skips hnonempty).takeWhile_not isWhitespace_skips
  simp only [controls, Text.firstWord, String.toList_ofList]
  generalize (segment.dropWhile Text.isWhitespace).takeWhile _ = word at hword ⊢
  generalize (put.dropWhile Text.isWhitespace).takeWhile _ = word' at hword ⊢
  cases hword.eq_or_mem interpolation_marks with
  | inl heq => rw [heq]
  | inr hmarks =>
    have hleft := not_retires_of_mem hmarks.1 rfl (by decide)
    have hright := not_retires_of_mem hmarks.2 rfl (by decide)
    have hword := List.isEmpty_eq_false_iff.mpr (List.ne_nil_of_mem hmarks.1)
    have hword' := List.isEmpty_eq_false_iff.mpr (List.ne_nil_of_mem hmarks.2)
    simp only [hword, hword', Bool.false_eq_true, if_false, Option.any_some, hleft, hright]

theorem changesDebugTarget_interpolated {text out : String} (h : Interpolates text out) :
    changesDebugTarget text = changesDebugTarget out := by
  rw [changesDebugTarget_eq, changesDebugTarget_eq]
  have hsegments := h.splitChars endsCommand_skips
  generalize Text.splitChars endsCommand text.toList = segments at hsegments ⊢
  generalize Text.splitChars endsCommand out.toList = outs at hsegments ⊢
  induction hsegments with
  | nil => rfl
  | cons hsegment _ ih => rw [List.any_cons, List.any_cons, controls_eq hsegment, ih]

/-! ## What substitution makes of a text and of a step -/

theorem substituteFrom_rewrites {resolve : String → Option String} {text : String}
    {rest out : List Char} (hhex : ResolvesToHex resolve)
    (h : substituteFrom resolve text rest = .ok out) : Rewritten Interpolation rest out := by
  fun_induction substituteFrom resolve text rest generalizing out with
  | case1 rest hopen =>
    cases h
    exact .refl rest
  | case2 => cases h
  | case3 => cases h
  | case4 => cases h
  | case5 rest before after hopen name behind hclose hname value hvalue ih =>
    obtain ⟨replaced, hreplaced, h⟩ := bind_eq_ok.mp h
    cases h
    obtain ⟨number, rfl⟩ := hhex _ _ hvalue
    have hall : ∀ c ∈ name, isCaptureChar c = true := by
      simp only [Bool.or_eq_true, Bool.not_eq_true', not_or, Bool.not_eq_false] at hname
      exact List.all_eq_true.mp hname.2
    have hscan : rest = before ++ (opensReference ++ name ++ closesReference ++ behind) := by
      rw [← Text.splitAtFirst_append hopen, ← Text.splitAtFirst_append hclose]
      simp only [List.append_assoc]
    rw [hscan, List.append_assoc before]
    exact .append before (.replace (.reference name number hall) (ih hreplaced))

theorem substitute_interpolates {resolve : String → Option String} {text out : String}
    (hhex : ResolvesToHex resolve) (h : substitute resolve text = .ok out) :
    Interpolates text out := by
  rw [substitute] at h
  cases hchars : substituteFrom resolve text text.toList with
  | error why =>
    rw [hchars] at h
    cases h
  | ok chars =>
    rw [hchars] at h
    cases h
    rw [Interpolates, String.toList_ofList]
    exact substituteFrom_rewrites hhex hchars

def StepAction.operands : StepAction → List String
  | .runTo text _ | .readMemory text _ | .poolChunk text _ | .eval text => [text]
  | .command _ | .resume _ _ | .poolFindTag _ _ _ _ _ | .poolCensus _ _ => []

def Check.operands : Check → List String
  | .contains _ | .notContains _ => []
  | .eval expr equals => [expr, equals]

def BatchStep.operands (step : BatchStep) : List String :=
  step.action.operands ++ step.expect.flatMap Check.operands

def StepAction.lines : StepAction → List String
  | .command line | .resume line _ => [line]
  | _ => []

theorem retiresHandle_eq (steps always : List BatchStep) : retiresHandle steps always =
    (steps ++ always).any fun step => step.action.lines.any changesDebugTarget := by
  unfold retiresHandle
  congr 1
  funext step
  cases step.action <;> simp [StepAction.lines]

theorem operand_eq_ok {place field value : String} {result : Unit} :
    operand place field value = .ok result ↔ value.toList.filter breaks = [] := by
  rw [operand, mapError_eq_ok, rejectCommandBreakers, List.filter_eq_nil_iff]
  have hbreaks : (fun c => endsCommand c || Quotes.rejected == Quotes.rejected && c == '\x22') =
      breaks := rfl
  rw [hbreaks]
  cases hfound : value.toList.find? breaks with
  | none =>
    rw [List.find?_eq_none] at hfound
    exact iff_of_true rfl hfound
  | some bad =>
    have hbad := List.find?_some hfound
    apply iff_of_false
    · intro hok
      cases hok
    · intro hnone
      exact hnone bad (List.mem_of_find?_eq_some hfound) hbad

theorem validateOperands_eq_ok {step : BatchStep} {place : String} {result : Unit} :
    validateOperands step place = .ok result ↔
      ∀ text ∈ step.operands, text.toList.filter breaks = [] := by
  rw [BatchStep.operands, List.forall_mem_append, List.forall_mem_flatMap]
  cases haction : step.action
  all_goals
    simp only [validateOperands, haction, bind_eq_ok, operand_eq_ok, forM_eq_ok,
      StepAction.operands, List.forall_mem_singleton, exists_const, List.not_mem_nil,
      false_imp_iff, implies_true, true_and]
  case' runTo | readMemory | poolChunk | eval => apply and_congr_right'
  all_goals
    apply forall₂_congr
    intro check _
    cases check with
    | contains text => exact iff_of_true rfl (List.forall_mem_nil _)
    | notContains text => exact iff_of_true rfl (List.forall_mem_nil _)
    | eval expr equals =>
      simp only [bind_eq_ok, operand_eq_ok, Check.operands, List.forall_mem_cons, exists_const]
      simp

/-- What substitution keeps of an action or a check: it rewrites its texts, and with them
its operands and its lines. -/
structure Rewrites (texts operands lines : α → List String) (written resolved : α) : Prop where
  texts : List.Forall₂ Interpolates (texts written) (texts resolved)
  operands : List.Forall₂ Interpolates (operands written) (operands resolved)
  lines : List.Forall₂ Interpolates (lines written) (lines resolved)

section

variable {resolve : String → Option String} (hhex : ResolvesToHex resolve)
include hhex

theorem StepAction.substituted_rewrites {action resolved : StepAction}
    (h : action.substituted resolve = .ok resolved) :
    Rewrites StepAction.texts StepAction.operands StepAction.lines action resolved := by
  cases action
  case poolCensus refresh limit =>
    cases h
    exact ⟨.nil, .nil, .nil⟩
  all_goals
    obtain ⟨out, hout, rfl⟩ := map_eq_ok.mp h
    have hrewrites := substitute_interpolates hhex hout
  case command | resume =>
    exact ⟨.cons hrewrites .nil, .nil, .cons hrewrites .nil⟩
  case poolFindTag => exact ⟨.cons hrewrites .nil, .nil, .nil⟩
  case runTo | readMemory | poolChunk | eval =>
    exact ⟨.cons hrewrites .nil, .cons hrewrites .nil, .nil⟩

theorem Check.substituted_rewrites {check resolved : Check}
    (h : check.substituted resolve = .ok resolved) :
    Rewrites Check.texts Check.operands (fun _ => []) check resolved := by
  cases check with
  | contains text | notContains text =>
    obtain ⟨out, hout, rfl⟩ := map_eq_ok.mp h
    exact ⟨.cons (substitute_interpolates hhex hout) .nil, .nil, .nil⟩
  | eval expr equals =>
    simp only [Check.substituted, bind_eq_ok] at h
    obtain ⟨left, hleft, right, hright, h⟩ := h
    cases h
    have hleft := substitute_interpolates hhex hleft
    have hright := substitute_interpolates hhex hright
    exact ⟨.cons hleft (.cons hright .nil), .cons hleft (.cons hright .nil), .nil⟩

theorem BatchStep.interpolated_rewrites {step resolved : BatchStep}
    (h : step.interpolated resolve = .ok resolved) :
    Rewrites BatchStep.texts BatchStep.operands (·.action.lines) step resolved := by
  simp only [BatchStep.interpolated, BatchStep.substituted, bind_eq_ok] at h
  obtain ⟨_, ⟨action, haction, checks, hchecks, hpair⟩, h⟩ := h
  cases hpair
  cases h
  have haction := StepAction.substituted_rewrites hhex haction
  have hchecks := mapM_eq_ok hchecks
  constructor
  · apply List.rel_append haction.texts
    exact List.rel_flatMap hchecks fun _ _ h => (Check.substituted_rewrites hhex h).texts
  · apply List.rel_append haction.operands
    exact List.rel_flatMap hchecks fun _ _ h => (Check.substituted_rewrites hhex h).operands
  · exact haction.lines

end

/-! ## An accepted batch -/

def assigned (names : List String) (values : String → Nat) (name : String) : Option String :=
  if name ∈ names then some (Text.hex (values name)) else none

theorem assigned_resolvesToHex (names : List String) (values : String → Nat) :
    ResolvesToHex (assigned names values) := by
  intro name put h
  unfold assigned at h
  split at h
  · exact ⟨values name, (Option.some.inj h).symm⟩
  · cases h

theorem assigned_isSome {names : List String} {values : String → Nat} {name : String}
    (h : name ∈ names) : (assigned names values name).isSome = true := by
  rw [assigned, if_pos h]
  rfl

def breakers (text : String) : List Char := text.toList.filter breaks

/-- A step as it was submitted and as it runs: no text of it has other separators, line
breaks or quotes, and its operands pass the check that they passed before. -/
structure Intact (step resolved : BatchStep) : Prop where
  breakers : resolved.texts.map breakers = step.texts.map breakers
  accepted : ∀ place, validateOperands resolved place = .ok ()

theorem map_breakers {texts outs : List String} (h : List.Forall₂ Interpolates texts outs) :
    outs.map breakers = texts.map breakers := by
  induction h with
  | nil => rfl
  | cons hfirst _ ih =>
    rw [List.map_cons, List.map_cons, ih]
    exact congrArg (· :: _) (hfirst.filter_eq breaks_skips)

theorem any_changesDebugTarget {lines outs : List String}
    (h : List.Forall₂ Interpolates lines outs) :
    lines.any changesDebugTarget = outs.any changesDebugTarget := by
  induction h with
  | nil => rfl
  | cons hfirst _ ih =>
    rw [List.any_cons, List.any_cons, changesDebugTarget_interpolated hfirst, ih]

theorem validateBlock_operands {blockName : String} {submissions : List Submission} {index : Nat}
    {bound after : List String}
    (h : validateBlock blockName index submissions bound = .ok after) :
    ∀ step ∈ submissions.map (·.step), ∀ text ∈ step.operands, text.toList.filter breaks = [] := by
  induction submissions generalizing index bound with
  | nil => exact List.forall_mem_nil _
  | cons submission submissions ih =>
    simp only [validateBlock, bind_eq_ok] at h
    obtain ⟨middle, hstep, hrest⟩ := h
    rw [List.map_cons, List.forall_mem_cons]
    refine ⟨?_, ih hrest⟩
    simp only [validateStep, bind_eq_ok] at hstep
    obtain ⟨_, -, _, hoperands, -⟩ := hstep
    exact validateOperands_eq_ok.mp hoperands

theorem AcceptsAll.interpolated {steps : List BatchStep} {bound : List String}
    (h : AcceptsAll steps bound) (names : List String) (hbound : ∀ name ∈ bound, name ∈ names)
    (hcaptures : ∀ name ∈ captures steps, name ∈ names) (values : String → Nat) :
    ∃ resolved, steps.mapM (BatchStep.interpolated (assigned names values)) = .ok resolved := by
  have hok : (steps.mapM (BatchStep.interpolated (assigned names values))).isOk = true := by
    apply (isOk_mapM_iff _ _).mpr
    intro step hstep
    obtain ⟨front, back, hsplit⟩ := List.append_of_mem hstep
    obtain ⟨hwellFormed, hinScope⟩ := h.accepts front step back hsplit
    have hsubstituted : (step.substituted (assigned names values)).isOk = true := by
      apply (substituted_isOk_iff step _).mpr
      refine ⟨hwellFormed, ?_⟩
      intro name hname
      apply assigned_isSome
      cases hinScope name hname with
      | inl hmem => exact hbound name hmem
      | inr hmem =>
        apply hcaptures
        rw [hsplit, captures_append]
        exact List.mem_append_left _ hmem
    rw [BatchStep.interpolated, isOk_bind true fun _ _ => rfl, hsubstituted]
    rfl
  cases hresult : steps.mapM (BatchStep.interpolated (assigned names values)) with
  | error why =>
    rw [hresult] at hok
    cases hok
  | ok resolved => exact ⟨resolved, rfl⟩

def interpolatedBlocks (steps always : List BatchStep) (values : String → Nat) :
    Except String (List BatchStep × List BatchStep) := do
  let resolve := assigned (captures steps ++ captures always) values
  let main ← steps.mapM (BatchStep.interpolated resolve)
  let cleanup ← always.mapM (BatchStep.interpolated resolve)
  .ok (main, cleanup)

structure KeepsHandle (steps always main cleanup : List BatchStep) : Prop where
  retires : retiresHandle main cleanup = true ↔ retiresHandle steps always = true
  intact : List.Forall₂ Intact (steps ++ always) (main ++ cleanup)

theorem retiresHandle_interpolated {resolve : String → Option String}
    {steps always main cleanup : List BatchStep} (hhex : ResolvesToHex resolve)
    (h : List.Forall₂ (fun step resolved => step.interpolated resolve = .ok resolved)
      (steps ++ always) (main ++ cleanup)) :
    retiresHandle main cleanup = retiresHandle steps always := by
  rw [retiresHandle_eq, retiresHandle_eq]
  generalize steps ++ always = before at h ⊢
  generalize main ++ cleanup = after at h ⊢
  induction h with
  | nil => rfl
  | cons hstep _ ih =>
    have hlines := (BatchStep.interpolated_rewrites hhex hstep).lines
    rw [List.any_cons, List.any_cons, ih, any_changesDebugTarget hlines]

theorem BatchStep.intact {resolve : String → Option String} {step resolved : BatchStep}
    (hhex : ResolvesToHex resolve) (h : step.interpolated resolve = .ok resolved)
    (hoperands : ∀ text ∈ step.operands, text.toList.filter breaks = []) :
    Intact step resolved := by
  have hrewrites := BatchStep.interpolated_rewrites hhex h
  refine ⟨map_breakers hrewrites.texts, ?_⟩
  intro place
  apply validateOperands_eq_ok.mpr
  intro text htext
  have hsame := map_breakers hrewrites.operands
  have hmem : breakers text ∈ step.operands.map breakers := by
    rw [← hsame]
    exact List.mem_map_of_mem htext
  obtain ⟨written, hwritten, heq⟩ := List.mem_map.mp hmem
  exact heq.symm.trans (hoperands written hwritten)

/-- Interpolation changes neither whether an accepted batch retires its handle nor what its
operands could end. -/
theorem interpolation_keeps_handle (steps always : List Submission)
    (haccepted : validate steps always = .ok ()) (values : String → Nat) :
    ∃ main cleanup,
      interpolatedBlocks (steps.map (·.step)) (always.map (·.step)) values =
          .ok (main, cleanup) ∧
        KeepsHandle (steps.map (·.step)) (always.map (·.step)) main cleanup := by
  simp only [validate, bind_eq_ok] at haccepted
  obtain ⟨_, -, _, -, _, -, bound, hsteps, after, halways, -⟩ := haccepted
  obtain ⟨hmain, hbound⟩ := validateBlock_ok hsteps
  have hcleanup := (validateBlock_ok halways).1
  have hoperands := List.forall_mem_append.mpr
    ⟨validateBlock_operands hsteps, validateBlock_operands halways⟩
  generalize steps.map (·.step) = steps at *
  generalize always.map (·.step) = always at *
  have hhex := assigned_resolvesToHex (captures steps ++ captures always) values
  obtain ⟨main, hmains⟩ := hmain.interpolated (captures steps ++ captures always)
    (List.forall_mem_nil _) (fun _ h => List.mem_append_left _ h) values
  obtain ⟨cleanup, hcleanups⟩ := hcleanup.interpolated (captures steps ++ captures always)
    (fun name h => List.mem_append_left _ (((hbound name).mp h).resolve_left List.not_mem_nil))
    (fun _ h => List.mem_append_right _ h) values
  have hpairs : List.Forall₂ _ (steps ++ always) (main ++ cleanup) :=
    List.rel_append (mapM_eq_ok hmains) (mapM_eq_ok hcleanups)
  refine ⟨main, cleanup, ?_, ?_, ?_⟩
  · simp only [interpolatedBlocks, hmains, hcleanups]
    rfl
  · rw [retiresHandle_interpolated hhex hpairs]
  · generalize steps ++ always = before at hpairs hoperands ⊢
    generalize main ++ cleanup = after at hpairs ⊢
    induction hpairs with
    | nil => exact .nil
    | cons hstep _ ih =>
      rw [List.forall_mem_cons] at hoperands
      exact .cons (BatchStep.intact hhex hstep hoperands.1) (ih hoperands.2)

theorem patchCaptured_keepsHandle : ∃ main cleanup,
    interpolatedBlocks (patchCaptured.map (·.step)) (restoreCaptured.map (·.step))
        (fun _ => 0x10) = .ok (main, cleanup) ∧
      KeepsHandle (patchCaptured.map (·.step)) (restoreCaptured.map (·.step)) main cleanup :=
  interpolation_keeps_handle patchCaptured restoreCaptured (by decide +kernel) fun _ => 0x10

end WindbgMcp.Batch
