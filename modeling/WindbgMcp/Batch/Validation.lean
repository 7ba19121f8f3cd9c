import Mathlib.Data.List.Sort
import WindbgMcp.Batch.Captures
import WindbgMcp.Batch.Outcomes
import WindbgMcp.Library.Fallible

/-! What is checked of a batch before any of it runs, and what that says of the captures
of a run: the steps of the main block find theirs bound. -/
namespace WindbgMcp.Batch

open Library Program Server

def maxSteps : Nat := 64
def maxChecks : Nat := 16

/-- A step as it was submitted, with every key it carried beside its own. -/
structure Submission where
  step : BatchStep
  extra : List String
deriving DecidableEq, Repr

def StepAction.fields : StepAction → List String
  | .command _ => ["command"]
  | .resume _ _ => ["command", "timeout_ms"]
  | .runTo _ _ => ["address", "timeout_ms"]
  | .eval _ => ["expr"]
  | .readMemory _ _ => ["address", "size"]
  | .poolChunk _ _ => ["address", "refresh"]
  | .poolFindTag _ _ _ _ _ => ["tag", "paged", "refresh", "stop_after_matches", "limit"]
  | .poolCensus _ _ => ["refresh", "limit"]

def StepAction.owns (action : StepAction) (key : String) : Bool :=
  key == "op" || action.fields.contains key

def Submission.unknownFields (submission : Submission) : List String :=
  submission.extra.filter fun key => !submission.step.action.owns key

def isCaptureName (name : String) : Bool :=
  !name.isEmpty && name.toList.head?.any (fun c => c.isAlpha || c == '_') &&
    name.toList.all isCaptureChar

def operand (place field value : String) : Except String Unit :=
  (rejectCommandBreakers field value .rejected).mapError fun why => place ++ ": " ++ why

def validateOperands (step : BatchStep) (place : String) : Except String Unit := do
  match step.action with
  | .runTo address _ | .readMemory address _ | .poolChunk address _ =>
    operand place "address" address
  | .eval expr => operand place "expr" expr
  -- a tag is never part of a command, and a raw command may be a list of them
  | .command _ | .resume _ _ | .poolFindTag _ _ _ _ _ | .poolCensus _ _ => pure ()
  step.expect.forM fun check =>
    match check with
    | .eval expr equals => do
      operand place "expr" expr
      operand place "equals" equals
    | .contains _ | .notContains _ => pure ()

def visible (bound : List String) (name : String) : Option String :=
  if name ∈ bound then some "" else none

def unresolved (place : String) (bound : List String) (why : String) : String :=
  place ++ ": " ++ why ++
    ". A step can only use a capture bound by an earlier step; the captures in scope here are " ++
    (if bound.isEmpty then "none" else String.intercalate ", " (bound.map referenceTo)) ++ "."

/-- The names in scope behind a step, which stand in order. -/
def validateCapture (step : BatchStep) (place : String) (bound : List String) :
    Except String (List String) :=
  match step.capture with
  | none => .ok bound
  | some capture =>
    if isCaptureName capture = false then
      .error (place ++ ": `" ++ capture ++
        "` is not a capture name — it must start with a letter or `_` and hold only letters, digits and `_`")
    else
      match step.action with
      | .eval _ =>
        if capture ∈ bound then
          .error (place ++ " captures `" ++ capture ++
            "`, which an earlier step already bound. A capture names one value for the whole batch.")
        else .ok (bound.orderedInsert (· ≤ ·) capture)
      | _ =>
        .error (place ++ " captures `" ++ capture ++
          "`, but only an `eval` step has a value to bind. Add an `eval` step for the value you want — `\x7b\"op\": \"eval\", \"expr\": \"@rcx\", \"capture\": \"" ++
          capture ++ "\"\x7d` — and interpolate it as " ++ referenceTo capture ++ ".")

def validateStep (blockName : String) (index : Nat) (submission : Submission)
    (bound : List String) : Except String (List String) := do
  let step := submission.step
  let place := "`" ++ blockName ++ "` step " ++ toString (index + 1)
  let unknown := submission.unknownFields
  insist (unknown = [])
    (place ++ " has field(s) this tool does not know: " ++ String.intercalate ", " unknown ++
      ". A step takes `op` and that op's own fields, plus `name`, `expect` and `capture` — check the spelling.")
  validateOperands step place
  insist (step.expect.length ≤ maxChecks)
    (place ++ " has " ++ toString step.expect.length ++ " checks; at most " ++
      toString maxChecks ++ " are allowed")
  let _ ← (step.action.substituted (visible bound)).mapError (unresolved place bound)
  let _ ← step.expect.mapM fun check =>
    (check.substituted (visible bound)).mapError (unresolved place bound)
  validateCapture step place bound

def validateBlock (blockName : String) :
    Nat → List Submission → List String → Except String (List String)
  | _, [], bound => .ok bound
  | index, submission :: submissions, bound => do
    let bound ← validateStep blockName index submission bound
    validateBlock blockName (index + 1) submissions bound

def validateLength (blockName : String) (block : List Submission) : Except String Unit :=
  insist (block.length ≤ maxSteps)
    ("`" ++ blockName ++ "` has " ++ toString block.length ++ " steps; at most " ++
      toString maxSteps ++ " are allowed. A batch runs as one indivisible job on its session, so its length is also how long every other call to that session waits.")

def validate (steps always : List Submission) : Except String Unit := do
  insist (steps ≠ []) "`steps` is empty; a batch needs at least one step"
  validateLength "steps" steps
  validateLength "always" always
  let bound ← validateBlock "steps" 0 steps []
  let _ ← validateBlock "always" 0 always bound
  pure ()

/-! ## What is accepted -/

/-- What validation knows of an accepted step, from the names in scope before it. -/
structure Accepts (step : BatchStep) (bound : List String) : Prop where
  wellFormed : step.wellFormed = true
  inScope : ∀ name ∈ step.references, name ∈ bound
  fresh : ∀ capture, step.capture = some capture → capture ∉ bound

theorem visible_isSome {bound : List String} {name : String} :
    (visible bound name).isSome = true ↔ name ∈ bound := by
  unfold visible
  split
  · simp_all
  · simp_all

theorem validateCapture_ok {step : BatchStep} {place : String} {bound after : List String}
    (h : validateCapture step place bound = .ok after) :
    (∀ capture, step.capture = some capture → capture ∉ bound) ∧
      ∀ name, name ∈ after ↔ name ∈ bound ∨ step.capture = some name := by
  unfold validateCapture at h
  cases hcapture : step.capture with
  | none =>
    rw [hcapture] at h
    cases h
    simp
  | some capture =>
    rw [hcapture] at h
    simp only at h
    split at h
    · cases h
    split at h
    · split at h
      · cases h
      · rename_i hfresh
        cases h
        refine ⟨?_, ?_⟩
        · intro other hother
          rw [← Option.some.inj hother]
          exact hfresh
        · intro name
          rw [List.mem_orderedInsert, Option.some.injEq, or_comm, eq_comm]
    · cases h

theorem substituted_visible {step : BatchStep} {bound : List String}
    (haction : (step.action.substituted (visible bound)).isOk = true)
    (hchecks : ∀ check ∈ step.expect, (check.substituted (visible bound)).isOk = true) :
    step.wellFormed = true ∧ ∀ name ∈ step.references, name ∈ bound := by
  have hstep : (step.substituted (visible bound)).isOk = true := by
    rw [BatchStep.substituted, isOk_bind true, haction]
    · rfl
    · intro action _
      rw [isOk_bind true fun _ _ => rfl, Bool.and_true]
      exact (isOk_mapM_iff _ _).mpr hchecks
  have h := (substituted_isOk_iff step (visible bound)).mp hstep
  exact ⟨h.1, fun name hname => visible_isSome.mp (h.2 name hname)⟩

theorem validateStep_ok {blockName : String} {index : Nat} {submission : Submission}
    {bound after : List String} (h : validateStep blockName index submission bound = .ok after) :
    Accepts submission.step bound ∧
      ∀ name, name ∈ after ↔ name ∈ bound ∨ submission.step.capture = some name := by
  simp only [validateStep, bind_eq_ok, mapError_eq_ok] at h
  obtain ⟨-, -, -, -, -, -, action, haction, checks, hchecks, h⟩ := h
  obtain ⟨hfresh, hafter⟩ := validateCapture_ok h
  have hall := (isOk_mapM_iff _ submission.step.expect).mp (by
    rw [hchecks]
    rfl)
  obtain ⟨hwellFormed, hinScope⟩ := @substituted_visible submission.step bound
    (by rw [haction]; rfl) (by
      intro check hcheck
      have hok := hall check hcheck
      cases hresult : check.substituted (visible bound) with
      | error why =>
        rw [hresult] at hok
        cases hok
      | ok value => rfl)
  exact ⟨⟨hwellFormed, hinScope, hfresh⟩, hafter⟩

def captures (steps : List BatchStep) : List String := steps.filterMap (·.capture)

theorem captures_append (front back : List BatchStep) :
    captures (front ++ back) = captures front ++ captures back := List.filterMap_append

theorem captures_cons (step : BatchStep) (steps : List BatchStep) :
    captures (step :: steps) = step.capture.toList ++ captures steps := by
  unfold captures
  cases hcapture : step.capture with
  | none => simp [hcapture]
  | some name => simp [hcapture]

/-- What validation knows of an accepted block, from the names in scope before it. -/
structure AcceptsAll (steps : List BatchStep) (bound : List String) : Prop where
  accepts : ∀ front step back, steps = front ++ step :: back →
    step.wellFormed = true ∧ ∀ name ∈ step.references, name ∈ bound ∨ name ∈ captures front
  nodup : (captures steps).Nodup
  fresh : ∀ name ∈ captures steps, name ∉ bound

theorem validateBlock_ok {blockName : String} {submissions : List Submission} {index : Nat}
    {bound after : List String}
    (h : validateBlock blockName index submissions bound = .ok after) :
    AcceptsAll (submissions.map (·.step)) bound ∧
      ∀ name, name ∈ after ↔ name ∈ bound ∨ name ∈ captures (submissions.map (·.step)) := by
  induction submissions generalizing index bound with
  | nil =>
    cases h
    refine ⟨⟨?_, List.nodup_nil, by simp [captures]⟩, by simp [captures]⟩
    intro front step back hsplit
    cases front with
    | nil => cases hsplit
    | cons _ _ => cases hsplit
  | cons submission submissions ih =>
    simp only [validateBlock, bind_eq_ok] at h
    obtain ⟨middle, hstep, hrest⟩ := h
    obtain ⟨haccepts, hmiddle⟩ := validateStep_ok hstep
    obtain ⟨hall, hafter⟩ := ih hrest
    rw [List.map_cons]
    generalize submissions.map (·.step) = steps at hall hafter ⊢
    generalize submission.step = step at haccepts hmiddle ⊢
    have hmem : ∀ name, name ∈ captures (step :: steps) ↔
        step.capture = some name ∨ name ∈ captures steps := by
      intro name
      rw [captures_cons, List.mem_append, Option.mem_toList]
    refine ⟨⟨?_, ?_, ?_⟩, ?_⟩
    · intro front other back hsplit
      cases front with
      | nil =>
        obtain ⟨rfl, -⟩ := List.cons.inj hsplit
        exact ⟨haccepts.wellFormed, fun name hname => Or.inl (haccepts.inScope name hname)⟩
      | cons first front =>
        obtain ⟨rfl, hrest⟩ := List.cons.inj hsplit
        obtain ⟨hwellFormed, hinScope⟩ := hall.accepts front other back hrest
        refine ⟨hwellFormed, ?_⟩
        intro name hname
        have hscope := hinScope name hname
        rw [hmiddle] at hscope
        rw [captures_cons, List.mem_append, Option.mem_toList]
        rwa [or_assoc] at hscope
    · rw [captures_cons]
      apply List.Nodup.append _ hall.nodup
      · intro name hname hlater
        rw [Option.mem_toList] at hname
        exact hall.fresh name hlater ((hmiddle name).mpr (Or.inr hname))
      · cases step.capture with
        | none => exact List.nodup_nil
        | some name => exact List.nodup_singleton name
    · intro name hname hbound
      rw [hmem] at hname
      cases hname with
      | inl hcapture => exact haccepts.fresh name hcapture hbound
      | inr hlater => exact hall.fresh name hlater ((hmiddle name).mpr (Or.inl hbound))
    · intro name
      rw [hafter, hmiddle, hmem, or_assoc]

theorem validate_ok {steps always : List Submission} (h : validate steps always = .ok ()) :
    AcceptsAll (steps.map (·.step)) [] ∧
      (captures (steps.map (·.step)) ++ captures (always.map (·.step))).Nodup := by
  simp only [validate, bind_eq_ok] at h
  obtain ⟨-, -, -, -, -, -, bound, hsteps, after, halways, -⟩ := h
  obtain ⟨hmain, hbound⟩ := validateBlock_ok hsteps
  have hcleanup := (validateBlock_ok halways).1
  refine ⟨hmain, hmain.nodup.append hcleanup.nodup ?_⟩
  intro name hname hlater
  exact hcleanup.fresh name hlater ((hbound name).mpr (Or.inr hname))

/-! ## The captures of a run -/

/-- What `{:#x}` writes: `0x` and lowercase hexadecimal digits. -/
def IsHexNumber (text : String) : Prop :=
  ∃ digits, text.toList = '0' :: 'x' :: digits ∧ digits ≠ [] ∧
    ∀ c ∈ digits, ('0' ≤ c ∧ c ≤ '9') ∨ ('a' ≤ c ∧ c ≤ 'f')

theorem isHexNumber_hex (value : Nat) : IsHexNumber (Text.hex value) := by
  obtain ⟨digits, hdigits, hsmall, -⟩ := Text.exists_toDigits value
  have hdigit : ∀ digit < 16, ('0' ≤ digit.digitChar ∧ digit.digitChar ≤ '9') ∨
      ('a' ≤ digit.digitChar ∧ digit.digitChar ≤ 'f') := by decide
  refine ⟨Nat.toDigits 16 value, ?_, ?_, ?_⟩
  · simp [Text.hex, Text.hexDigits]
  · exact List.ne_nil_of_length_pos Nat.length_toDigits_pos
  · intro c hc
    rw [hdigits] at hc
    obtain ⟨digit, hmem, rfl⟩ := List.mem_map.mp hc
    exact hdigit digit (hsmall digit hmem)

def Extends (step : BatchStep) (bound after : Bindings) : Prop :=
  after = bound ∨ ∃ name value, step.capture = some name ∧ after = (name, Text.hex value) :: bound

theorem bindCapture_extends (step : BatchStep) (rendered output : String) (bound : Bindings)
    (result : StepResult) :
    Extends step bound (bindCapture step.capture rendered output bound result).2 := by
  unfold bindCapture
  cases result with
  | ok =>
    cases hcapture : step.capture with
    | none => exact Or.inl rfl
    | some name =>
      simp only
      split
      · exact Or.inr ⟨name, _, hcapture, rfl⟩
      · exact Or.inl rfl
  | failed why => exact Or.inl rfl
  | unmet why => exact Or.inl rfl
  | skipped why => exact Or.inl rfl

theorem finishStep_extends (block : Block) (step : BatchStep) (position deadline : Nat)
    (bound : Bindings) (alreadyGone : Bool) (action : StepAction) (checks : List Check)
    (reading : Held) (ran : Except Failed Ran) :
    Ensures (fun _ => True) (fun run => Extends step bound run.bound) (fun _ => True)
      (finishStep block step position deadline bound alreadyGone action checks reading ran) := by
  cases ran with
  | error why =>
    simp only [finishStep, finishRefused, hasTarget_bind]
    split
    · exact Or.inl rfl
    · refine ensures_ask trivial fun answer => ?_
      cases answer with
      | returned holding => exact Or.inl rfl
      | panicked why => exact trivial
  | ok ran =>
    have hchecks := runChecks_ensures (.assertion block position) deadline reading
      (!alreadyGone && ran.targetGone) ran.output checks ran.interrupted
    refine (hchecks.mono (fun _ _ => trivial) (fun _ => id) fun _ => False.elim).bind ?_
    intro verdict _
    exact bindCapture_extends step _ _ bound verdict.1

theorem runStep_extends {block : Block} {step : BatchStep} {position deadline : Nat}
    {bound : Bindings} {alreadyGone : Bool} {trace : Trace} {run : StepRun}
    (h : Runs (runStep block step position deadline bound alreadyGone) trace (.ok run)) :
    Extends step bound run.bound := by
  obtain ⟨elapsed, hskipped | hissued⟩ := runs_runStep_iff.mp h
  · obtain ⟨why, -, -, hresult⟩ := hskipped
    cases hresult
    exact Or.inl rfl
  · obtain ⟨action, checks, answer, reading, sealed, tail, -, -, -, hfinish⟩ := hissued
    exact ((finishStep_extends _ _ _ _ _ _ _ _ _ _).of_runs hfinish).2.1 run rfl

/-- Every name is bound once at most, to a number, and is the capture of one of the steps
that have had their turn. -/
structure Bindings.Tidy (bound : Bindings) (turned : List String) : Prop where
  once : (bound.map Prod.fst).Sublist turned.reverse
  hex : ∀ entry ∈ bound, IsHexNumber entry.2

theorem Bindings.Tidy.grow {bound : Bindings} {turned more : List String}
    (h : bound.Tidy turned) : bound.Tidy (turned ++ more) := by
  refine ⟨?_, h.hex⟩
  rw [List.reverse_append]
  exact h.once.trans (List.sublist_append_right _ _)

theorem Bindings.Tidy.extends {bound after : Bindings} {turned : List String} {step : BatchStep}
    (h : bound.Tidy turned) (hextends : Extends step bound after) :
    after.Tidy (turned ++ step.capture.toList) := by
  cases hextends with
  | inl hsame =>
    rw [hsame]
    exact h.grow
  | inr hmore =>
    obtain ⟨name, value, hcapture, rfl⟩ := hmore
    rw [hcapture]
    refine ⟨?_, ?_⟩
    · simpa using h.once
    · intro entry hentry
      cases hentry with
      | head => exact isHexNumber_hex value
      | tail _ hentry => exact h.hex entry hentry

theorem captures_take {steps : List BatchStep} {index : Nat} {step : BatchStep}
    (hitem : steps[index]? = some step) :
    captures (steps.take (index + 1)) = captures (steps.take index) ++ step.capture.toList := by
  rw [List.take_add_one, hitem, captures_append, Option.toList_some, captures_cons]
  simp [captures]

section Turns

variable {stepsDeadline budget index : Nat} {step : BatchStep} {steps always : List BatchStep}
  {progress next main : Progress} {turned : List String} {trace : Trace}

theorem MainTurn.tidy (h : MainTurn stepsDeadline index step progress trace next)
    (htidy : progress.bound.Tidy turned) : next.bound.Tidy (turned ++ step.capture.toList) := by
  cases h with
  | stopped why _ => exact htidy.grow
  | gated outcome why gates _ _ _ _ => exact htidy.grow
  | ran gates middle ranking run outcome _ _ hrun _ _ => exact htidy.extends (runStep_extends hrun)

theorem AlwaysTurn.tidy (h : AlwaysTurn budget index step progress trace next)
    (htidy : progress.bound.Tidy turned) : next.bound.Tidy (turned ++ step.capture.toList) := by
  cases h with
  | withheld seen _ => exact htidy.grow
  | late elapsed _ _ why => exact htidy.grow
  | ran elapsed middle run _ _ hrun => exact htidy.extends (runStep_extends hrun)

theorem mainBlock_tidy (h : Runs (mainBlock steps budget) trace (.ok main)) :
    main.bound.Tidy (captures steps) := by
  have hturns := mainBlock_turns
    (fun index progress _ => progress.bound.Tidy (captures (steps.take index))) ?_
    ⟨by simp, by simp⟩ h
  · rwa [List.take_length] at hturns
  · intro index step progress before trace next hitem htidy hturn
    rw [captures_take hitem]
    exact hturn.tidy htidy

theorem alwaysBlock_tidy {cleanup : Progress} (htidy : main.bound.Tidy turned)
    (h : Runs (alwaysBlock always budget main) trace (.ok cleanup)) :
    cleanup.bound.Tidy (turned ++ captures always) := by
  have hturns := alwaysBlock_turns
    (fun index progress _ => progress.bound.Tidy (turned ++ captures (always.take index))) ?_ []
    (by simpa [captures] using htidy) h
  · rwa [List.take_length] at hturns
  · intro index step progress before trace next hitem hbefore hturn
    rw [captures_take hitem, ← List.append_assoc]
    exact hturn.tidy hbefore

def AllBound (progress : Progress) (turned : List String) : Prop :=
  progress.outcome = .committed → ∀ name ∈ turned, (progress.bound.get name).isSome = true

theorem MainTurn.allBound (h : MainTurn stepsDeadline index step progress trace next)
    (hall : AllBound progress turned) : AllBound next (turned ++ step.capture.toList) := by
  intro hcommitted name hname
  cases h with
  | stopped why hstopped => exact absurd hcommitted hstopped
  | gated outcome why gates _ houtcome _ _ =>
    change outcome = .committed at hcommitted
    rw [hcommitted] at houtcome
    cases houtcome
  | ran gates middle ranking run outcome hbefore _ hrun _ hranks =>
    change outcome = .committed at hcommitted
    rw [hcommitted] at hranks
    have hclean : run.outcome.clean = true := by
      cases hranks with
      | inl h => exact h.2.1
      | inr h => cases h.1
    have hok : run.outcome.ok = true := by
      unfold StepOutcome.clean at hclean
      simp_all
    have hbinds := (runStep_returns hrun).binds name
    apply hbinds.mpr
    rw [List.mem_append, Option.mem_toList] at hname
    exact hname.imp (hall hbefore name) fun hcapture => ⟨hok, hcapture⟩

theorem mainBlock_allBound (h : Runs (mainBlock steps budget) trace (.ok main)) :
    AllBound main (captures steps) := by
  have hturns := mainBlock_turns
    (fun index progress _ => AllBound progress (captures (steps.take index))) ?_ ?_ h
  · rwa [List.take_length] at hturns
  · intro index step progress before trace next hitem hall hturn
    rw [captures_take hitem]
    exact hturn.allBound hall
  · intro _ name hname
    cases hname

theorem resolves_of_accepted (haccepted : AcceptsAll steps []) (hitem : steps[index]? = some step)
    (hall : AllBound progress (captures (steps.take index)))
    (hcommitted : progress.outcome = .committed) :
    (step.substituted progress.bound.get).isOk = true := by
  obtain ⟨hlt, hstep⟩ := List.getElem?_eq_some_iff.mp hitem
  have hsplit : steps = steps.take index ++ step :: steps.drop (index + 1) := by
    rw [← hstep, List.getElem_cons_drop, List.take_append_drop]
  obtain ⟨hwellFormed, hinScope⟩ := haccepted.accepts _ _ _ hsplit
  apply (substituted_isOk_iff step progress.bound.get).mpr
  refine ⟨hwellFormed, ?_⟩
  intro name hname
  exact hall hcommitted name ((hinScope name hname).resolve_left List.not_mem_nil)

/-- The executor has called `run_step` for a main step, which asks the clock first. -/
def Entered (trace : Trace) (position : Nat) : Prop :=
  ∃ event ∈ trace, event.query = clockQuery .steps position

theorem not_entered_nil {position : Nat} : ¬Entered [] position :=
  fun ⟨_, hevent, _⟩ => List.not_mem_nil hevent

theorem entered_append {front back : Trace} {position : Nat} :
    Entered (front ++ back) position ↔ Entered front position ∨ Entered back position := by
  simp only [Entered, List.mem_append]
  constructor
  · intro ⟨event, hevent, hquery⟩
    exact hevent.imp (fun hevent => ⟨event, hevent, hquery⟩) fun hevent => ⟨event, hevent, hquery⟩
  · intro h
    cases h with
    | inl h => exact ⟨h.choose, Or.inl h.choose_spec.1, h.choose_spec.2⟩
    | inr h => exact ⟨h.choose, Or.inr h.choose_spec.1, h.choose_spec.2⟩

theorem Gates.not_entered {block : Block} {position other : Nat} (h : Gates block position trace) :
    ¬Entered trace other := by
  intro ⟨event, hevent, hquery⟩
  have hsite := (h event hevent).1
  rw [hquery] at hsite
  cases hsite

theorem StepTrace.issues_entered {position other : Nat} {bound : Bindings} {reading : Held}
    (h : StepTrace .steps step position bound trace reading)
    (hok : (step.substituted bound.get).isOk = true) (hentered : Entered trace other) :
    other = position ∧ (.steps, other) ∈ Batch.actions trace := by
  obtain ⟨event, hevent, hquery⟩ := hentered
  have hstep := h.steps event hevent
  rw [hquery] at hstep
  have hposition : other = position := (Prod.mk.inj (Option.some.inj hstep)).2
  rw [h.actions, hok, hposition]
  exact ⟨rfl, List.mem_cons_self⟩

/-- Every main step that `run_step` was called for was issued, and did not end skipped. -/
structure EnteredRan (index : Nat) (progress : Progress) (trace : Trace) : Prop where
  length : progress.done.length = index
  issued : ∀ position, Entered trace position → (.steps, position) ∈ actions trace
  ran : ∀ position, Entered trace position → ∃ i outcome, position = i + 1 ∧
    progress.done[i]? = some outcome ∧ outcome.result.isSkipped = false

theorem EnteredRan.skip {before gates : Trace} {outcome : BatchOutcome} {why : String}
    (h : EnteredRan index progress before) (hgates : ∀ position, ¬Entered gates position) :
    EnteredRan (index + 1) (progress.skip outcome (index + 1) step why) (before ++ gates) where
  length := by simp [Progress.skip, h.length]
  issued := by
    intro position hentered
    rw [actions_append]
    have hbefore := (entered_append.mp hentered).resolve_right (hgates position)
    exact List.mem_append_left _ (h.issued position hbefore)
  ran := by
    intro position hentered
    have hbefore := (entered_append.mp hentered).resolve_right (hgates position)
    obtain ⟨i, ended, hposition, hended, hran⟩ := h.ran position hbefore
    have hlt := (List.getElem?_eq_some_iff.mp hended).1
    exact ⟨i, ended, hposition, (List.getElem?_append_left hlt).trans hended, hran⟩

theorem EnteredRan.turn {before : Trace} (h : EnteredRan index progress before)
    (hresolves : progress.outcome = .committed →
      (step.substituted progress.bound.get).isOk = true)
    (hturn : MainTurn stepsDeadline index step progress trace next) :
    EnteredRan (index + 1) next (before ++ trace) := by
  cases hturn with
  | stopped why _ => exact h.skip fun _ => not_entered_nil
  | gated outcome why gates _ _ _ hgates => exact h.skip fun position => hgates.not_entered
  | ran gates middle ranking run outcome hcommitted hgates hrun hranking _ =>
    have hreturns := runStep_returns hrun
    have hok := hresolves hcommitted
    have hmiddle {position : Nat} (hentered : Entered (gates ++ (middle ++ ranking)) position) :
        position = index + 1 ∧ (.steps, position) ∈ actions middle := by
      rw [entered_append, entered_append] at hentered
      apply hreturns.trace.issues_entered hok
      exact (hentered.resolve_left hgates.not_entered).resolve_right hranking.not_entered
    refine ⟨by simp [Progress.record, h.length], ?_, ?_⟩
    · intro position hentered
      simp only [actions_append, List.mem_append]
      cases entered_append.mp hentered with
      | inl hentered => exact Or.inl (h.issued position hentered)
      | inr hentered => exact Or.inr (Or.inr (Or.inl (hmiddle hentered).2))
    · intro position hentered
      cases entered_append.mp hentered with
      | inl hentered =>
        obtain ⟨i, ended, hposition, hended, hran⟩ := h.ran position hentered
        have hlt := (List.getElem?_eq_some_iff.mp hended).1
        exact ⟨i, ended, hposition, (List.getElem?_append_left hlt).trans hended, hran⟩
      | inr hentered =>
        refine ⟨index, run.outcome, (hmiddle hentered).1, ?_, ?_⟩
        · rw [← h.length]
          exact List.getElem?_concat_length
        · rw [hreturns.skipped, hok]
          rfl

theorem mainBlock_enteredRan (haccepted : AcceptsAll steps [])
    {result : Except (Option String) Progress} (h : Runs (mainBlock steps budget) trace result) :
    (∀ main, result = .ok main → EnteredRan steps.length main trace) ∧
      ∀ payload, result = .error payload →
        ∀ position, Entered trace position → (.steps, position) ∈ actions trace := by
  have hloop := runs_forEach
    (fun index progress trace => AllBound progress (captures (steps.take index)) ∧
      EnteredRan index progress trace)
    (fun trace => ∀ position, Entered trace position → (.steps, position) ∈ actions trace)
    ?_ [] ⟨?_, ?_⟩ h
  · exact ⟨fun main hmain => (hloop.1 main hmain).2, hloop.2⟩
  · intro index step progress before trace result hitem hbefore hruns
    obtain ⟨hall, hran⟩ := hbefore
    have hresolves := resolves_of_accepted haccepted hitem hall
    obtain ⟨next, rfl, hturn⟩ | ⟨payload, gates, middle, rfl, rfl, hcommitted, hgates, hrun⟩ :=
      runs_mainStep hruns
    · refine ⟨?_, fun _ hpayload => (by cases hpayload)⟩
      intro last hlast
      cases hlast
      rw [captures_take hitem]
      exact ⟨hturn.allBound hall, hran.turn hresolves hturn⟩
    · refine ⟨fun _ hnext => (by cases hnext), ?_⟩
      intro _ _ position hentered
      obtain ⟨-, reading, htrace⟩ := runStep_unwinds hrun
      rw [entered_append, entered_append] at hentered
      simp only [actions_append, List.mem_append]
      obtain hentered | hentered | hentered := hentered
      · exact Or.inl (hran.issued position hentered)
      · exact absurd hentered hgates.not_entered
      · exact Or.inr (Or.inr (htrace.issues_entered (hresolves hcommitted) hentered).2)
  · intro _ name hname
    cases hname
  · exact ⟨rfl, fun _ hentered => absurd hentered not_entered_nil,
      fun _ hentered => absurd hentered not_entered_nil⟩

end Turns

/-! ## An accepted batch -/

/-- The trace and the state of a batch between two of its steps, in either block. -/
inductive Between (op : BatchOp) (budget : Nat) : Trace → Progress → Prop where
  | main (count : Nat) {trace : Trace} {progress : Progress}
      (hmain : Runs (mainBlock (op.steps.take count) budget) trace (.ok progress)) :
      Between op budget trace progress
  | cleanup (count : Nat) {front middle back : Trace} {main progress : Progress}
      {outcome : BatchOutcome} (hmain : Runs (mainBlock op.steps budget) front (.ok main))
      (hseal : Runs (sealRollback main) middle (.ok outcome))
      (halways : Runs (alwaysBlock (op.always.take count) budget main) back (.ok progress)) :
      Between op budget (front ++ middle ++ back) progress

/-- What a batch makes of its captures.  The references of a main step resolve whenever its
turn comes, so that one `run_step` was called for is issued and not reported skipped. -/
structure CapturesBound (op : BatchOp) (budget : Nat) : Prop where
  resolves : ∀ (count : Nat) (step : BatchStep) (trace : Trace) (progress : Progress),
    op.steps[count]? = some step →
    Runs (mainBlock (op.steps.take count) budget) trace (.ok progress) →
    progress.outcome = .committed → (step.substituted progress.bound.get).isOk = true
  issued : ∀ trace result, Runs (run op budget) trace result →
    ∀ position, Entered trace position → (.steps, position) ∈ actions trace
  ran : ∀ trace report, Runs (run op budget) trace (.ok report) →
    ∀ position, Entered trace position → ∃ i outcome, position = i + 1 ∧
      report.steps[i]? = some outcome ∧ outcome.result.isSkipped = false
  once : ∀ trace progress, Between op budget trace progress →
    (progress.bound.map Prod.fst).Nodup
  hex : ∀ trace progress, Between op budget trace progress →
    ∀ name value, progress.bound.get name = some value → IsHexNumber value

theorem not_entered_of_step? {trace : Trace}
    (h : ∀ event ∈ trace, ∀ position, event.query.step? ≠ some (.steps, position))
    {position : Nat} : ¬Entered trace position := by
  intro ⟨event, hevent, hquery⟩
  apply h event hevent position
  rw [hquery]
  rfl

theorem Between.tidy {op : BatchOp} {budget : Nat} {trace : Trace} {progress : Progress}
    (h : Between op budget trace progress) :
    ∃ turned, turned.Sublist (captures op.steps ++ captures op.always) ∧
      progress.bound.Tidy turned := by
  have htaken (steps : List BatchStep) (count : Nat) :
      (captures (steps.take count)).Sublist (captures steps) :=
    (List.take_sublist count steps).filterMap _
  cases h with
  | main count hmain =>
    exact ⟨_, (htaken op.steps count).trans (List.sublist_append_left _ _), mainBlock_tidy hmain⟩
  | cleanup count hmain hseal halways =>
    exact ⟨_, (List.Sublist.refl _).append (htaken op.always count),
      alwaysBlock_tidy (mainBlock_tidy hmain) halways⟩

section

variable {op : BatchOp} {budget : Nat} {trace : Trace}

theorem Completes.entered_main {report : BatchReport} (h : Completes op budget trace report)
    {position : Nat} (hentered : Entered trace position) : Entered h.mainTrace position := by
  obtain ⟨event, hevent, hquery⟩ := hentered
  have hstep : event.query.step? = some (.steps, position) := by
    rw [hquery]
    rfl
  exact ⟨event, h.mem_mainTrace hevent hstep, hquery⟩

theorem issued_of_accepted (haccepted : AcceptsAll op.steps [])
    {result : Except (Option String) BatchReport} (h : Runs (run op budget) trace result)
    {position : Nat} (hentered : Entered trace position) :
    (.steps, position) ∈ actions trace := by
  obtain ⟨report, -, ⟨hcompletes⟩⟩ | ⟨payload, -, hmain | hunwound⟩ := runs_run h
  · have hran := (mainBlock_enteredRan haccepted hcompletes.mainRuns).1 _ rfl
    have hissued := hran.issued position (hcompletes.entered_main hentered)
    rw [hcompletes.trace_eq]
    simp [hissued]
  · exact (mainBlock_enteredRan haccepted hmain).2 payload rfl position hentered
  · obtain ⟨main, outcome, mainTrace, sealTrace, alwaysTrace, rfl, hmain, hseal, halways⟩ :=
      hunwound
    have hran := (mainBlock_enteredRan haccepted hmain).1 main rfl
    have hsealed : ¬Entered sealTrace position := by
      apply not_entered_of_step?
      intro event hevent other
      rw [((sealRollback_ensures main).of_runs hseal).1 event hevent]
      exact fun hother => by cases hother
    have hcleaned : ¬Entered alwaysTrace position := by
      apply not_entered_of_step?
      intro event hevent other hother
      obtain ⟨mine, hmine⟩ := alwaysBlock_asks halways event hevent
      rw [hother] at hmine
      cases hmine
    rw [entered_append, entered_append] at hentered
    have hissued := hran.issued position
      ((hentered.resolve_right hcleaned).resolve_right hsealed)
    simp [hissued]

end

theorem validated_capturesBound (steps always : List Submission)
    (haccepted : validate steps always = .ok ()) (budget : Nat) :
    CapturesBound ⟨steps.map (·.step), always.map (·.step)⟩ budget := by
  obtain ⟨hsteps, hnodup⟩ := validate_ok haccepted
  constructor
  · intro count step trace progress hitem hmain hcommitted
    exact resolves_of_accepted hsteps hitem (mainBlock_allBound hmain) hcommitted
  · intro trace result hruns position hentered
    exact issued_of_accepted hsteps hruns hentered
  · intro trace report hruns position hentered
    obtain ⟨other, hother, ⟨hcompletes⟩⟩ | ⟨payload, hpayload, -⟩ := runs_run hruns
    · cases hother
      have hran := (mainBlock_enteredRan hsteps hcompletes.mainRuns).1 _ rfl
      rw [hcompletes.steps_eq]
      exact hran.ran position (hcompletes.entered_main hentered)
    · cases hpayload
  · intro trace progress hbetween
    obtain ⟨turned, hturned, htidy⟩ := hbetween.tidy
    exact (List.nodup_reverse.mpr (hnodup.sublist hturned)).sublist htidy.once
  · intro trace progress hbetween name value hvalue
    obtain ⟨turned, -, htidy⟩ := hbetween.tidy
    obtain ⟨entry, hentry, rfl⟩ := Option.map_eq_some_iff.mp hvalue
    exact htidy.hex entry (List.mem_of_find?_eq_some hentry)

def patchCaptured : List Submission :=
  [⟨⟨none, .eval "nt!flag", [], some "flag"⟩, ["op", "expr"]⟩,
    ⟨⟨none, .command "eb \x7b\x7bflag\x7d\x7d 1", [.eval "by(\x7b\x7bflag\x7d\x7d)" "1"], none⟩,
      ["op", "command"]⟩]

def restoreCaptured : List Submission :=
  [⟨⟨none, .command "eb \x7b\x7bflag\x7d\x7d 0", [], none⟩, ["op", "command"]⟩]

theorem patchCaptured_capturesBound : CapturesBound
    ⟨patchCaptured.map (·.step), restoreCaptured.map (·.step)⟩ 2000000000 :=
  validated_capturesBound patchCaptured restoreCaptured (by decide +kernel) 2000000000

end WindbgMcp.Batch
