import WindbgMcp.Batch.Execution

/-! Every run of one step: what it asks, in which order, and what it makes of the
answers. -/
namespace WindbgMcp.Batch

open Library Program

/-! ## Reading a trace -/

def Query.engineCall? (query : Query) : Option EngineCall :=
  match query.request with
  | .engine call => some call
  | _ => none

def Query.action? (query : Query) : Option (Block × Nat) :=
  match query.site, query.request with
  | .action block position, .engine _ => some (block, position)
  | _, _ => none

def Query.step? (query : Query) : Option (Block × Nat) :=
  match query.site with
  | .gate block position | .action block position | .reading block position
  | .ending block position | .assertion block position => some (block, position)
  | .seal | .probe | .report => none

theorem step?_of_action? {query : Query} {issued : Block × Nat}
    (h : query.action? = some issued) : query.step? = some issued := by
  obtain ⟨site, request⟩ := query
  cases site <;> cases request <;> simp_all [Query.action?, Query.step?]

def lostAt : Happening → Option (Block × Nat)
  | ⟨⟨.reading block position, .replaced⟩, answer⟩ =>
    if Call.read answer = .same then none else some (block, position)
  | _ => none

def endingPanicked : Happening → Bool
  | ⟨⟨_, .hasTarget⟩, .panicked _⟩ => true
  | _ => false

section Ensures

variable {α : Type} {asks : Query → Prop} {returns : α → Prop} {unwinds : Option String → Prop}

theorem ensures_ask {asked : Query} {next : asked.Answer → Executor α} (h : asks asked)
    (hnext : ∀ answer, Ensures asks returns unwinds (next answer)) :
    Ensures asks returns unwinds (Program.ask asked next) :=
  ⟨h, hnext⟩

end Ensures

/-! ## Assertions -/

def AsksForAssertion (site : Site) (query : Query) : Prop :=
  query.site = site ∧
    (query.request = .elapsed ∨
      ∃ line ms, minStepBudgetMs ≤ ms ∧ query.request = .engine (.command line ms))

theorem evalValue_ensures (site : Site) (expr : String) (deadline : Nat) (cutShort : Bool) :
    Ensures (AsksForAssertion site) (fun _ => True) (fun _ => False)
      (evalValue site expr deadline cutShort) := by
  simp only [evalValue, elapsed_bind, guarded_engine_bind]
  refine ensures_ask ⟨rfl, Or.inl rfl⟩ fun elapsed => ?_
  split
  · exact trivial
  · refine ensures_ask ⟨rfl, Or.inl rfl⟩ fun again => ?_
    refine ensures_ask ⟨rfl, Or.inr ⟨_, _, Nat.le_max_right _ _, rfl⟩⟩ fun ran => ?_
    split
    · exact trivial
    · split <;> exact trivial

theorem evaluate_ensures (site : Site) (check : Check) (output : String) (deadline : Nat)
    (cutShort : Bool) :
    Ensures (AsksForAssertion site) (fun _ => True) (fun _ => False)
      (evaluate site check output deadline cutShort) := by
  cases check with
  | contains text => exact trivial
  | notContains text => exact trivial
  | eval expr equals =>
    refine (evalValue_ensures site expr deadline cutShort).bind ?_
    rintro ⟨left, cutShort⟩ -
    cases left with
    | error why => exact trivial
    | ok left =>
      refine (evalValue_ensures site equals deadline cutShort).bind ?_
      rintro ⟨right, cutShort⟩ -
      cases right <;> exact trivial

theorem runChecks_ensures (site : Site) (deadline : Nat) (reading : Held) (targetGone : Bool)
    (output : String) (checks : List Check) (cutShort : Bool) :
    Ensures (AsksForAssertion site) (fun verdict => verdict.1.isSkipped = false)
      (fun _ => False) (runChecks site deadline reading targetGone output checks cutShort) := by
  induction checks generalizing cutShort with
  | nil => exact rfl
  | cons check checks ih =>
    simp only [runChecks, elapsed_bind]
    split
    · exact rfl
    split
    · exact rfl
    refine ensures_ask ⟨rfl, Or.inl rfl⟩ fun elapsed => ?_
    split
    · exact rfl
    refine (evaluate_ensures site check output deadline cutShort).bind ?_
    rintro ⟨(why | why) | ⟨⟩, cutShort⟩ -
    · exact rfl
    · exact rfl
    · exact ih _

theorem runChecks_lost {site : Site} {deadline : Nat} {reading : Held} {targetGone : Bool}
    {output : String} (checks : List Check) (cutShort : Bool) (hlost : reading ≠ .same) :
    Ensures (fun query => query.request = .elapsed) (fun _ => True) (fun _ => False)
      (runChecks site deadline reading targetGone output checks cutShort) := by
  induction checks generalizing cutShort with
  | nil => exact trivial
  | cons check checks ih =>
    simp only [runChecks, elapsed_bind]
    split
    · exact trivial
    split
    · exact trivial
    rename_i hengine
    refine ensures_ask rfl fun elapsed => ?_
    split
    · exact trivial
    -- what is left to evaluate reads the output only
    have hquiet : Ensures (fun query => query.request = .elapsed) (fun _ => True)
        (fun _ => False) (evaluate site check output deadline cutShort) := by
      cases check with
      | contains text => exact trivial
      | notContains text => exact trivial
      | eval expr equals => exact absurd ⟨hlost, rfl⟩ hengine
    refine hquiet.bind ?_
    rintro ⟨(why | why) | ⟨⟩, cutShort⟩ -
    · exact trivial
    · exact trivial
    · exact ih _

/-! ## The end of a step -/

def AsksToFinish (block : Block) (position : Nat) (query : Query) : Prop :=
  query = ⟨.ending block position, .hasTarget⟩ ∨
    AsksForAssertion (.assertion block position) query

/-- What a step that was not skipped reports. -/
structure Reports (step : BatchStep) (position : Nat) (alreadyGone : Bool) (reading : Held)
    (run : StepRun) : Prop where
  position : run.outcome.position = position
  label : run.outcome.label = step.label
  reading : run.reading = reading
  notSkipped : run.outcome.result.isSkipped = false
  goneOnce : run.outcome.targetGone = true → alreadyGone = false

/-- Which names are bound after a step: those before it, and its own capture if it
ended `ok`. -/
def Binds (step : BatchStep) (before : Bindings) (run : StepRun) : Prop :=
  ∀ name, (run.bound.get name).isSome ↔
    (before.get name).isSome ∨ run.outcome.ok = true ∧ step.capture = some name

theorem bindings_get_cons_isSome (bound : Bindings) (name value other : String) :
    (Bindings.get ((name, value) :: bound) other).isSome ↔
      (bound.get other).isSome ∨ name = other := by
  by_cases h : name = other
  · simp [Bindings.get, h]
  · simp [Bindings.get, h]

theorem bindCapture_binds (capture : Option String) (rendered output : String)
    (bound : Bindings) (result : StepResult) (name : String) :
    ((bindCapture capture rendered output bound result).2.get name).isSome ↔
      (bound.get name).isSome ∨
        (bindCapture capture rendered output bound result).1 = .ok ∧ capture = some name := by
  cases result with
  | ok =>
    cases capture with
    | none => simp [bindCapture]
    | some captured =>
      simp only [bindCapture]
      split
      · rw [bindings_get_cons_isSome]
        simp
      · simp
  | failed why => simp [bindCapture]
  | unmet why => simp [bindCapture]
  | skipped why => simp [bindCapture]

theorem bindCapture_isSkipped {capture : Option String} {rendered output : String}
    {bound : Bindings} {result : StepResult} (h : result.isSkipped = false) :
    (bindCapture capture rendered output bound result).1.isSkipped = false := by
  cases result with
  | ok =>
    cases capture with
    | none => rfl
    | some captured =>
      simp only [bindCapture]
      split <;> rfl
  | failed why => rfl
  | unmet why => rfl
  | skipped why => cases h

section

variable (block : Block) (step : BatchStep) (position deadline : Nat) (bound : Bindings)
  (alreadyGone : Bool) (action : StepAction) (checks : List Check) (reading : Held)

theorem finishStep_ensures (ran : Except Failed Ran) :
    Ensures (AsksToFinish block position)
      (fun run => Reports step position alreadyGone reading run ∧ Binds step bound run)
      (fun _ => True)
      (finishStep block step position deadline bound alreadyGone action checks reading ran) := by
  cases ran with
  | error why =>
    simp only [finishStep, finishRefused, hasTarget_bind]
    split
    · exact ⟨⟨rfl, rfl, rfl, rfl, by simp⟩, fun name => by simp [StepOutcome.ok]⟩
    · rename_i hgone
      refine ensures_ask (Or.inl rfl) ?_
      rintro (holding | why)
      · exact ⟨⟨rfl, rfl, rfl, rfl, fun _ => by simpa using hgone⟩,
          fun name => by simp [StepOutcome.ok]⟩
      · exact trivial
  | ok ran =>
    simp only [finishStep, finishRan]
    have hchecks := runChecks_ensures (.assertion block position) deadline reading
      (!alreadyGone && ran.targetGone) ran.output checks ran.interrupted
    refine (hchecks.mono (fun _ => Or.inr) (fun _ => id) fun _ => False.elim).bind ?_
    rintro ⟨result, cutShort⟩ hresult
    refine ⟨⟨rfl, rfl, rfl, bindCapture_isSkipped hresult, ?_⟩, ?_⟩
    · intro hgone
      simp only [Bool.and_eq_true, Bool.not_eq_true'] at hgone
      exact hgone.1
    · intro name
      rw [bindCapture_binds]
      simp [StepOutcome.ok]

theorem finishStep_lost (ran : Except Failed Ran) (hlost : reading ≠ .same) :
    Ensures (fun query => query.engineCall? = none) (fun _ => True) (fun _ => True)
      (finishStep block step position deadline bound alreadyGone action checks reading ran) := by
  cases ran with
  | error why =>
    simp only [finishStep, finishRefused, hasTarget_bind]
    split
    · exact trivial
    · refine ensures_ask rfl ?_
      rintro (holding | why)
      · exact trivial
      · exact trivial
  | ok ran =>
    simp only [finishStep, finishRan]
    refine ((runChecks_lost checks ran.interrupted hlost).mono ?_ (fun _ => id) fun _ => False.elim).bind ?_
    · intro query hquery
      simp [Query.engineCall?, hquery]
    · rintro ⟨result, cutShort⟩ -
      exact trivial

theorem endingPanicked_of_finishStep_unwinds {ran : Except Failed Ran} {trace : Trace}
    {payload : Option String}
    (h : Runs (finishStep block step position deadline bound alreadyGone action checks reading ran)
      trace (.error payload)) : ∃ event ∈ trace, endingPanicked event = true := by
  cases ran with
  | error why =>
    simp only [finishStep, finishRefused, hasTarget_bind] at h
    split at h
    · cases h
    · rw [runs_ask_iff] at h
      obtain ⟨holding | why, rest, rfl, h⟩ := h
      · cases h
      · exact ⟨_, List.mem_cons_self, rfl⟩
  | ok ran =>
    simp only [finishStep, finishRan] at h
    have hchecks := runChecks_ensures (.assertion block position) deadline reading
      (!alreadyGone && ran.targetGone) ran.output checks ran.interrupted
    have hnever : Ensures (fun _ => True) (fun _ => True) (fun _ => False)
        (finishRan block step position deadline bound alreadyGone action checks reading ran) :=
      (hchecks.mono (fun _ _ => trivial) (fun _ _ => trivial) fun _ => False.elim).bind fun _ _ => trivial
    exact ((hnever.of_runs h).2.2 payload rfl).elim

end

/-! ## A whole step -/

def clockQuery (block : Block) (position : Nat) : Query := ⟨.action block position, .elapsed⟩

def actionQuery (block : Block) (position : Nat) (call : EngineCall) : Query :=
  ⟨.action block position, .engine call⟩

def readingQuery (block : Block) (position : Nat) : Query := ⟨.reading block position, .replaced⟩

def sealQuery (block : Block) (position : Nat) : Query :=
  ⟨.reading block position, .sealing .targetLost⟩

def watchdogFrom (elapsed deadline : Nat) : Nat :=
  max (stepBudgetMs elapsed deadline) minStepBudgetMs

/-- A step either resolves none of its references and asks the clock only, or asks
in order: the clock, its action, the reading, the seal if the target is lost, and
what finishing takes. -/
theorem runs_runStep_iff {block : Block} {step : BatchStep} {position deadline : Nat}
    {bound : Bindings} {alreadyGone : Bool} {trace : Trace}
    {result : Except (Option String) StepRun} :
    Runs (runStep block step position deadline bound alreadyGone) trace result ↔
      ∃ elapsed : Nat,
        (∃ why, step.substituted bound.get = .error why ∧
          trace = [⟨clockQuery block position, elapsed⟩] ∧
          result = .ok ⟨.skipped position step why, .same, bound⟩) ∨
        ∃ (action : StepAction) (checks : List Check) (answer : Call (Except Failed Ran))
            (reading : Call Held) (sealed tail : Trace),
          step.substituted bound.get = .ok (action, checks) ∧
          trace = ⟨clockQuery block position, elapsed⟩ ::
            ⟨actionQuery block position (action.call (watchdogFrom elapsed deadline)), answer⟩ ::
            ⟨readingQuery block position, reading⟩ :: (sealed ++ tail) ∧
          (reading.read = .same ∧ sealed = [] ∨
            reading.read ≠ .same ∧ ∃ broke : Bool, sealed = [⟨sealQuery block position, broke⟩]) ∧
          Runs (finishStep block step position deadline bound alreadyGone action checks
            reading.read answer.settled) tail result := by
  simp only [runStep, elapsed_bind, runs_ask_iff]
  constructor
  · rintro ⟨elapsed, rest, rfl, h⟩
    refine ⟨elapsed, ?_⟩
    split at h
    · rename_i why hwhy
      simp only [pure_eq, runs_done_iff] at h
      obtain ⟨rfl, rfl⟩ := h
      exact Or.inl ⟨why, hwhy, rfl, rfl⟩
    · rename_i action checks hok
      simp only [guarded_engine_bind, held_bind, runs_ask_iff] at h
      obtain ⟨answer, rest, rfl, reading, rest, rfl, h⟩ := h
      refine Or.inr ⟨action, checks, answer, reading, ?_⟩
      by_cases hsame : reading.read = .same
      · simp only [sealIfLost, hsame, if_true, pure_eq, done_bind] at h
        refine ⟨[], rest, hok, rfl, Or.inl ⟨hsame, rfl⟩, ?_⟩
        rw [hsame]
        exact h
      · simp only [sealIfLost, hsame, if_false, sealing_bind, ask_bind, pure_eq, done_bind,
          runs_ask_iff] at h
        obtain ⟨broke, rest, rfl, h⟩ := h
        exact ⟨[_], rest, hok, rfl, Or.inr ⟨hsame, broke, rfl⟩, h⟩
  · rintro ⟨elapsed, ⟨why, hwhy, rfl, rfl⟩ |
      ⟨action, checks, answer, reading, sealed, tail, hok, rfl, hsealed, h⟩⟩
    · refine ⟨elapsed, [], rfl, ?_⟩
      simp [hwhy]
    · refine ⟨elapsed, _, rfl, ?_⟩
      simp only [hok, guarded_engine_bind, held_bind, runs_ask_iff]
      refine ⟨answer, _, rfl, reading, _, rfl, ?_⟩
      rcases hsealed with ⟨hsame, rfl⟩ | ⟨hlost, broke, rfl⟩
      · simp only [sealIfLost, hsame, if_true, pure_eq, done_bind]
        rw [hsame] at h
        exact h
      · simp only [sealIfLost, hlost, if_false, sealing_bind, ask_bind, pure_eq, done_bind,
          runs_ask_iff]
        exact ⟨broke, tail, rfl, h⟩

def actions (trace : Trace) : List (Block × Nat) := trace.filterMap (·.query.action?)

def losses (trace : Trace) : List (Block × Nat) := trace.filterMap lostAt

@[simp] theorem actions_append (front back : Trace) :
    actions (front ++ back) = actions front ++ actions back := List.filterMap_append

@[simp] theorem losses_append (front back : Trace) :
    losses (front ++ back) = losses front ++ losses back := List.filterMap_append

theorem losses_eq_nil_iff (trace : Trace) :
    losses trace = [] ↔ ∀ event ∈ trace, lostAt event = none := List.filterMap_eq_nil_iff

def Quiet (trace : Trace) : Prop :=
  ∀ event ∈ trace, event.query.engineCall? = none ∧ event.query.request ≠ .replaced

/-- After a reading that lost the target come its seal, no engine call and no other
reading. -/
def Certified : Trace → Prop
  | [] => True
  | event :: later =>
    match lostAt event with
    | some (block, position) =>
      later.head?.map (·.query) = some (sealQuery block position) ∧ Quiet later
    | none => Certified later

theorem certified_of_losses_eq_nil {trace : Trace} (h : losses trace = []) :
    Certified trace := by
  induction trace with
  | nil => trivial
  | cons event trace ih =>
    rw [losses_eq_nil_iff] at h
    have hevent := h event List.mem_cons_self
    simp only [Certified, hevent]
    apply ih
    rw [losses_eq_nil_iff]
    exact fun later hlater => h later (List.mem_cons_of_mem _ hlater)

theorem certified_append {front back : Trace} (hfront : Certified front)
    (hquiet : losses front ≠ [] → Quiet back)
    (hback : losses front = [] → Certified back) : Certified (front ++ back) := by
  induction front with
  | nil => exact hback rfl
  | cons event front ih =>
    simp only [List.cons_append, Certified] at hfront ⊢
    split
    · rename_i block position hlost
      simp only [hlost] at hfront
      obtain ⟨hsealed, hnone⟩ := hfront
      refine ⟨?_, ?_⟩
      · cases front with
        | nil => cases hsealed
        | cons first front => exact hsealed
      · intro later hlater
        rcases List.mem_append.mp hlater with hlater | hlater
        · exact hnone later hlater
        · refine hquiet ?_ later hlater
          simp [losses, hlost]
    · rename_i hkept
      simp only [hkept] at hfront
      have hlosses : losses (event :: front) = losses front := by simp [losses, hkept]
      rw [hlosses] at hquiet hback
      exact ih hfront hquiet hback

theorem lostAt_eq_none {event : Happening} (h : event.query.request ≠ .replaced) :
    lostAt event = none := by
  obtain ⟨⟨site, request⟩, answer⟩ := event
  cases request with
  | replaced => exact absurd rfl h
  | _ => cases site <;> rfl

theorem AsksForAssertion.request_ne {site : Site} {query : Query}
    (h : AsksForAssertion site query) : query.request ≠ .replaced := by
  rcases h.2 with helapsed | ⟨line, ms, -, hcommand⟩
  · rw [helapsed]
    simp
  · rw [hcommand]
    simp

theorem AsksToFinish.request_ne {block : Block} {position : Nat} {query : Query}
    (h : AsksToFinish block position query) : query.request ≠ .replaced := by
  rcases h with rfl | h
  · simp
  · exact h.request_ne

theorem AsksToFinish.step?_eq {block : Block} {position : Nat} {query : Query}
    (h : AsksToFinish block position query) : query.step? = some (block, position) := by
  rcases h with rfl | h
  · rfl
  · rw [Query.step?, h.1]

theorem AsksToFinish.site_ne {block : Block} {position : Nat} {query : Query}
    (h : AsksToFinish block position query) : query.site ≠ .gate block position := by
  rcases h with rfl | h
  · simp
  · rw [h.1]
    simp

theorem AsksToFinish.action?_eq {block : Block} {position : Nat} {query : Query}
    (h : AsksToFinish block position query) : query.action? = none := by
  rcases h with rfl | h
  · rfl
  · rw [Query.action?, h.1]

/-- What a run of a step shows, however it ends. -/
structure StepTrace (block : Block) (step : BatchStep) (position : Nat) (bound : Bindings)
    (trace : Trace) (reading : Held) : Prop where
  steps : ∀ event ∈ trace, event.query.step? = some (block, position)
  inside : ∀ event ∈ trace, event.query.site ≠ .gate block position
  actions : actions trace =
    if (step.substituted bound.get).isOk then [(block, position)] else []
  issues : ∀ event ∈ trace, event.query.action?.isSome → ∃ action checks ms,
    step.substituted bound.get = .ok (action, checks) ∧
      event.query = actionQuery block position (action.call ms)
  losses : losses trace = if reading = .same then [] else [(block, position)]
  certified : Certified trace

variable {block : Block} {step : BatchStep} {position deadline : Nat} {bound : Bindings}
  {alreadyGone : Bool} {trace : Trace}

theorem stepTrace_of_skipped {elapsed : Nat} {why : String}
    (hwhy : step.substituted bound.get = .error why) :
    StepTrace block step position bound [⟨clockQuery block position, elapsed⟩] .same where
  steps := by simp [clockQuery, Query.step?]
  inside := by simp [clockQuery]
  actions := by
    rw [hwhy]
    rfl
  issues := by simp [clockQuery, Query.action?]
  losses := rfl
  certified := certified_of_losses_eq_nil rfl

section Issued

variable {elapsed : Nat} {action : StepAction} {checks : List Check}
  {answer : Call (Except Failed Ran)} {reading : Call Held} {sealed tail : Trace}
  {result : Except (Option String) StepRun}

/-- What follows the reading of a step: the seal if it lost the target, and then no
action and no other reading. -/
theorem behind_reading
    (hsealed : reading.read = .same ∧ sealed = [] ∨
      reading.read ≠ .same ∧ ∃ broke : Bool, sealed = [⟨sealQuery block position, broke⟩])
    (htail : ∀ event ∈ tail, AsksToFinish block position event.query) :
    ∀ event ∈ sealed ++ tail, event.query.step? = some (block, position) ∧
      event.query.site ≠ .gate block position ∧ event.query.action? = none ∧
      lostAt event = none := by
  intro event hevent
  rcases List.mem_append.mp hevent with hevent | hevent
  · rcases hsealed with ⟨-, rfl⟩ | ⟨-, broke, rfl⟩
    · cases hevent
    · rw [List.mem_singleton.mp hevent]
      exact ⟨rfl, by simp [sealQuery], rfl, rfl⟩
  · have hasks := htail event hevent
    exact ⟨hasks.step?_eq, hasks.site_ne, hasks.action?_eq, lostAt_eq_none hasks.request_ne⟩

theorem certified_of_reading
    (hsealed : reading.read = .same ∧ sealed = [] ∨
      reading.read ≠ .same ∧ ∃ broke : Bool, sealed = [⟨sealQuery block position, broke⟩])
    (hfinish : Runs (finishStep block step position deadline bound alreadyGone action checks
      reading.read answer.settled) tail result) :
    Certified (⟨readingQuery block position, reading⟩ :: (sealed ++ tail)) := by
  have htail := ((finishStep_ensures block step position deadline bound alreadyGone action checks
    reading.read answer.settled).of_runs hfinish).1
  simp only [Certified, readingQuery, lostAt]
  rcases hsealed with ⟨hsame, rfl⟩ | ⟨hlost, broke, rfl⟩
  · simp only [hsame, if_true, List.nil_append]
    refine certified_of_losses_eq_nil ((losses_eq_nil_iff tail).mpr fun event hevent => ?_)
    exact lostAt_eq_none (htail event hevent).request_ne
  · simp only [hlost, if_false]
    refine ⟨rfl, ?_⟩
    have hquiet := ((finishStep_lost block step position deadline bound alreadyGone action checks
      reading.read answer.settled hlost).of_runs hfinish).1
    intro later hlater
    rcases List.mem_cons.mp hlater with rfl | hlater
    · exact ⟨rfl, by simp [sealQuery]⟩
    · exact ⟨hquiet later hlater, (htail later hlater).request_ne⟩

theorem stepTrace_of_issued
    (hok : step.substituted bound.get = .ok (action, checks))
    (hsealed : reading.read = .same ∧ sealed = [] ∨
      reading.read ≠ .same ∧ ∃ broke : Bool, sealed = [⟨sealQuery block position, broke⟩])
    (hfinish : Runs (finishStep block step position deadline bound alreadyGone action checks
      reading.read answer.settled) tail result) :
    StepTrace block step position bound
      (⟨clockQuery block position, elapsed⟩ ::
        ⟨actionQuery block position (action.call (watchdogFrom elapsed deadline)), answer⟩ ::
        ⟨readingQuery block position, reading⟩ :: (sealed ++ tail)) reading.read := by
  have htail := ((finishStep_ensures block step position deadline bound alreadyGone action checks
    reading.read answer.settled).of_runs hfinish).1
  have hrest := behind_reading hsealed htail
  constructor
  · intro event hevent
    simp only [List.mem_cons] at hevent
    rcases hevent with rfl | rfl | rfl | hevent
    · rfl
    · rfl
    · rfl
    · exact (hrest event hevent).1
  · intro event hevent
    simp only [List.mem_cons] at hevent
    rcases hevent with rfl | rfl | rfl | hevent
    · simp [clockQuery]
    · simp [actionQuery]
    · simp [readingQuery]
    · exact (hrest event hevent).2.1
  · have hnone : (sealed ++ tail).filterMap (·.query.action?) = [] :=
      List.filterMap_eq_nil_iff.mpr fun event hevent => (hrest event hevent).2.2.1
    simp only [Batch.actions, List.filterMap_cons, hnone, hok]
    rfl
  · intro event hevent hissued
    simp only [List.mem_cons] at hevent
    rcases hevent with rfl | rfl | rfl | hevent
    · cases hissued
    · exact ⟨action, checks, _, hok, rfl⟩
    · cases hissued
    · rw [(hrest event hevent).2.2.1] at hissued
      cases hissued
  · have hnone : (sealed ++ tail).filterMap lostAt = [] :=
      List.filterMap_eq_nil_iff.mpr fun event hevent => (hrest event hevent).2.2.2
    simp only [Batch.losses, List.filterMap_cons, hnone, clockQuery, actionQuery, readingQuery,
      lostAt]
    by_cases hsame : reading.read = .same
    · simp [hsame]
    · simp [hsame]
  · exact certified_of_reading hsealed hfinish

end Issued

/-- What a step that returns reports, with its trace. -/
structure StepReturns (block : Block) (step : BatchStep) (position : Nat) (bound : Bindings)
    (alreadyGone : Bool) (trace : Trace) (run : StepRun) : Prop where
  trace : StepTrace block step position bound trace run.reading
  position : run.outcome.position = position
  label : run.outcome.label = step.label
  goneOnce : run.outcome.targetGone = true → alreadyGone = false
  skipped : run.outcome.result.isSkipped = !(step.substituted bound.get).isOk
  binds : Binds step bound run

theorem runStep_returns {run : StepRun}
    (h : Runs (runStep block step position deadline bound alreadyGone) trace (.ok run)) :
    StepReturns block step position bound alreadyGone trace run := by
  obtain ⟨elapsed, ⟨why, hwhy, rfl, hresult⟩ |
    ⟨action, checks, answer, reading, sealed, tail, hok, rfl, hsealed, hfinish⟩⟩ :=
      runs_runStep_iff.mp h
  · obtain rfl := Except.ok.inj hresult
    exact ⟨stepTrace_of_skipped hwhy, rfl, rfl, by simp [StepOutcome.skipped], by rw [hwhy]; rfl,
      fun name => by simp [StepOutcome.ok, StepOutcome.skipped]⟩
  · obtain ⟨hreports, hbinds⟩ := ((finishStep_ensures block step position deadline bound
      alreadyGone action checks reading.read answer.settled).of_runs hfinish).2.1 run rfl
    refine ⟨?_, hreports.position, hreports.label, hreports.goneOnce, ?_, hbinds⟩
    · rw [hreports.reading]
      exact stepTrace_of_issued hok hsealed hfinish
    · rw [hreports.notSkipped, hok]
      rfl

theorem runStep_unwinds {payload : Option String}
    (h : Runs (runStep block step position deadline bound alreadyGone) trace (.error payload)) :
    (∃ event ∈ trace, endingPanicked event = true) ∧
      ∃ reading, StepTrace block step position bound trace reading := by
  obtain ⟨elapsed, ⟨why, hwhy, rfl, hresult⟩ |
    ⟨action, checks, answer, reading, sealed, tail, hok, rfl, hsealed, hfinish⟩⟩ :=
      runs_runStep_iff.mp h
  · cases hresult
  · refine ⟨?_, _, stepTrace_of_issued hok hsealed hfinish⟩
    obtain ⟨event, hevent, hpanicked⟩ := endingPanicked_of_finishStep_unwinds _ _ _ _ _ _ _ _ _
      hfinish
    exact ⟨event, by simp [hevent], hpanicked⟩

end WindbgMcp.Batch
