import WindbgMcp.Batch.BlockRuns

/-! Time bounds of a batch, for a debugger whose clock advances in engine calls only
and whose calls return within the watchdog they were armed with. -/
namespace WindbgMcp.Batch

open Library Program

def Ticks (clock : Nat) (event : Happening) (next : Nat) : Prop :=
  match event with
  | ⟨⟨_, .engine call⟩, _⟩ => clock ≤ next ∧ next ≤ clock + call.watchdogMs * nanosPerMs
  | ⟨⟨_, .elapsed⟩, elapsed⟩ => elapsed = clock ∧ next = clock
  | _ => next = clock

theorem observed_elapsed_iff {site : Site} {clock elapsed last : Nat} {trace : Trace} :
    Observed Ticks clock (⟨⟨site, .elapsed⟩, elapsed⟩ :: trace) last ↔
      elapsed = clock ∧ Observed Ticks clock trace last := by
  rw [observed_cons_iff]
  constructor
  · rintro ⟨next, ⟨helapsed, rfl⟩, hrest⟩
    exact ⟨helapsed, hrest⟩
  · rintro ⟨helapsed, hrest⟩
    exact ⟨clock, ⟨helapsed, rfl⟩, hrest⟩

theorem observed_skip {clock last : Nat} {event : Happening} {trace : Trace}
    (hstill : event.query.engineCall? = none) (h : Observed Ticks clock (event :: trace) last) :
    Observed Ticks clock trace last := by
  obtain ⟨next, htick, hrest⟩ := observed_cons_iff.mp h
  have hnext : next = clock := by
    obtain ⟨⟨site, request⟩, answer⟩ := event
    cases request with
    | engine call => cases hstill
    | elapsed => exact htick.2
    | _ => exact htick
  rw [← hnext]
  exact hrest

theorem observed_still {clock last : Nat} {front back : Trace}
    (hstill : ∀ event ∈ front, event.query.engineCall? = none)
    (h : Observed Ticks clock (front ++ back) last) : Observed Ticks clock back last := by
  induction front with
  | nil => exact h
  | cons event front ih =>
    exact ih (fun event hevent => hstill event (List.mem_cons_of_mem _ hevent))
      (observed_skip (hstill event List.mem_cons_self) h)

def overshoot : Nat := minStepBudgetMs * nanosPerMs

def Within (deadline clock next : Nat) : Prop :=
  clock ≤ next ∧ (next = clock ∨ next < deadline + overshoot)

theorem Within.refl (deadline clock : Nat) : Within deadline clock clock :=
  ⟨Nat.le_refl _, Or.inl rfl⟩

theorem Within.trans {deadline first second third : Nat} (h : Within deadline first second)
    (h' : Within deadline second third) : Within deadline first third := by
  obtain ⟨hle, hbound⟩ := h
  obtain ⟨hle', hbound'⟩ := h'
  refine ⟨Nat.le_trans hle hle', ?_⟩
  rcases hbound' with rfl | hbound'
  · exact hbound
  · exact Or.inr hbound'

theorem watchdogFrom_lt {clock deadline : Nat} (h : clock < deadline) :
    clock + watchdogFrom clock deadline * nanosPerMs < deadline + overshoot := by
  have hfloor : (deadline - clock) / nanosPerMs * nanosPerMs ≤ deadline - clock :=
    Nat.div_mul_le_self _ _
  have hstep : stepBudgetMs clock deadline * nanosPerMs ≤ deadline - clock :=
    Nat.le_trans (Nat.mul_le_mul_right _ (Nat.min_le_left _ _)) hfloor
  have hpositive : 0 < overshoot := by decide
  rw [watchdogFrom, Nat.max_def]
  split
  · change clock + overshoot < deadline + overshoot
    omega
  · omega

theorem within_of_call {clock next deadline ms : Nat} (hclock : clock < deadline)
    (hms : ms ≤ watchdogFrom clock deadline) (hle : clock ≤ next)
    (hnext : next ≤ clock + ms * nanosPerMs) : Within deadline clock next := by
  have hwatchdog := watchdogFrom_lt hclock
  have harmed := Nat.mul_le_mul_right nanosPerMs hms
  exact ⟨hle, Or.inr (by omega)⟩

section

variable {site : Site} {deadline clock last : Nat} {trace : Trace}

theorem clock_of_done {α : Type} {value : α} {result : Except (Option String) α}
    (h : Runs (pure value : Executor α) trace result) (hclock : Observed Ticks clock trace last) :
    last = clock := by
  obtain ⟨rfl, -⟩ := runs_done_iff.mp h
  exact observed_nil_iff.mp hclock

theorem within_of_done {α : Type} {value : α} {result : Except (Option String) α}
    (h : Runs (pure value : Executor α) trace result) (hclock : Observed Ticks clock trace last) :
    Within deadline clock last := by
  rw [clock_of_done h hclock]
  exact .refl _ _

theorem evalValue_within {expr : String} {cutShort : Bool}
    {result : Except (Option String) (Except CheckFailed Nat × Bool)}
    (h : Runs (evalValue site expr deadline cutShort) trace result)
    (hclock : Observed Ticks clock trace last) : Within deadline clock last := by
  simp only [evalValue, elapsed_bind, guarded_engine_bind, runs_ask_iff] at h
  obtain ⟨elapsed, rest, rfl, h⟩ := h
  rw [observed_elapsed_iff] at hclock
  obtain ⟨rfl, hclock⟩ := hclock
  split at h
  · exact within_of_done h hclock
  rename_i hlate
  simp only [runs_ask_iff] at h
  obtain ⟨again, rest, rfl, answer, rest, rfl, h⟩ := h
  rw [observed_elapsed_iff] at hclock
  obtain ⟨rfl, hclock⟩ := hclock
  obtain ⟨next, ⟨hle, hnext⟩, hclock⟩ := observed_cons_iff.mp hclock
  have hrest : rest = [] := by
    split at h
    · exact (runs_done_iff.mp h).1
    · split at h <;> exact (runs_done_iff.mp h).1
  subst hrest
  obtain rfl := observed_nil_iff.mp hclock
  exact within_of_call (Nat.lt_of_not_le hlate) (Nat.le_refl _) hle hnext

theorem evaluate_within {check : Check} {output : String} {cutShort : Bool}
    {result : Except (Option String) (Except CheckFailed Unit × Bool)}
    (h : Runs (evaluate site check output deadline cutShort) trace result)
    (hclock : Observed Ticks clock trace last) : Within deadline clock last := by
  cases check with
  | contains text => exact within_of_done h hclock
  | notContains text => exact within_of_done h hclock
  | eval expr equals =>
    simp only [evaluate] at h
    rcases runs_bind_iff.mp h with ⟨payload, rfl, hleft⟩ |
      ⟨⟨left, cutShort⟩, front, back, rfl, hleft, h⟩
    · exact evalValue_within hleft hclock
    obtain ⟨middle, hfront, hback⟩ := observed_append_iff.mp hclock
    have hfirst := evalValue_within hleft hfront
    cases left with
    | error why => exact hfirst.trans (within_of_done h hback)
    | ok left =>
      rcases runs_bind_iff.mp h with ⟨payload, rfl, hright⟩ |
        ⟨⟨right, cutShort⟩, front, back, rfl, hright, h⟩
      · exact hfirst.trans (evalValue_within hright hback)
      obtain ⟨final, hfront, hback⟩ := observed_append_iff.mp hback
      have hsecond := hfirst.trans (evalValue_within hright hfront)
      cases right with
      | error why => exact hsecond.trans (within_of_done h hback)
      | ok right => exact hsecond.trans (within_of_done h hback)

theorem runChecks_within {reading : Held} {targetGone : Bool} {output : String}
    {checks : List Check} {cutShort : Bool}
    {result : Except (Option String) (StepResult × Bool)}
    (h : Runs (runChecks site deadline reading targetGone output checks cutShort) trace result)
    (hclock : Observed Ticks clock trace last) : Within deadline clock last := by
  induction checks generalizing clock cutShort trace with
  | nil => exact within_of_done h hclock
  | cons check checks ih =>
    simp only [runChecks, elapsed_bind] at h
    split at h
    · exact within_of_done h hclock
    split at h
    · exact within_of_done h hclock
    rw [runs_ask_iff] at h
    obtain ⟨elapsed, rest, rfl, h⟩ := h
    rw [observed_elapsed_iff] at hclock
    obtain ⟨rfl, hclock⟩ := hclock
    split at h
    · exact within_of_done h hclock
    rcases runs_bind_iff.mp h with ⟨payload, rfl, hcheck⟩ |
      ⟨⟨verdict, cutShort⟩, front, back, rfl, hcheck, h⟩
    · exact evaluate_within hcheck hclock
    obtain ⟨middle, hfront, hback⟩ := observed_append_iff.mp hclock
    have hfirst := evaluate_within hcheck hfront
    rcases verdict with (why | why) | ⟨⟩
    · exact hfirst.trans (within_of_done h hback)
    · exact hfirst.trans (within_of_done h hback)
    · exact hfirst.trans (ih h hback)

theorem finishStep_within {block : Block} {step : BatchStep} {position : Nat} {bound : Bindings}
    {alreadyGone : Bool} {action : StepAction} {checks : List Check} {reading : Held}
    {ran : Except Failed Ran} {result : Except (Option String) StepRun}
    (h : Runs (finishStep block step position deadline bound alreadyGone action checks reading ran)
      trace result) (hclock : Observed Ticks clock trace last) : Within deadline clock last := by
  cases ran with
  | error why =>
    simp only [finishStep, finishRefused, hasTarget_bind] at h
    split at h
    · exact within_of_done h hclock
    rw [runs_ask_iff] at h
    obtain ⟨holding | why, rest, rfl, h⟩ := h
    · exact within_of_done h (observed_skip rfl hclock)
    · replace hclock := observed_skip rfl hclock
      obtain ⟨rfl, -⟩ := runs_unwind_iff.mp h
      rw [observed_nil_iff] at hclock
      rw [hclock]
      exact .refl _ _
  | ok ran =>
    simp only [finishStep, finishRan] at h
    rcases runs_bind_iff.mp h with ⟨payload, rfl, hchecks⟩ |
      ⟨⟨verdict, cutShort⟩, front, back, rfl, hchecks, h⟩
    · exact runChecks_within hchecks hclock
    · obtain ⟨middle, hfront, hback⟩ := observed_append_iff.mp hclock
      exact (runChecks_within hchecks hfront).trans (within_of_done h hback)

/-- A step arms its action with its whole budget or with the wait it asks for, never
below the floor and never above the budget. -/
theorem StepAction.call_watchdogMs (action : StepAction) {ms : Nat} (h : minStepBudgetMs ≤ ms) :
    minStepBudgetMs ≤ (action.call ms).watchdogMs ∧ (action.call ms).watchdogMs ≤ ms := by
  have hwait (requested : Nat) : minStepBudgetMs ≤ max (min requested ms) minStepBudgetMs ∧
      max (min requested ms) minStepBudgetMs ≤ ms := by omega
  cases action with
  | resume line timeoutMs => exact hwait _
  | runTo address timeoutMs => exact hwait _
  | _ => exact ⟨h, Nat.le_refl _⟩

theorem runStep_within {block : Block} {step : BatchStep} {position : Nat} {bound : Bindings}
    {alreadyGone : Bool} {result : Except (Option String) StepRun}
    (h : Runs (runStep block step position deadline bound alreadyGone) trace result)
    (hclock : Observed Ticks clock trace last) (hstart : clock < deadline) :
    Within deadline clock last := by
  obtain ⟨elapsed, ⟨why, hwhy, rfl, -⟩ |
    ⟨action, checks, answer, reading, sealed, tail, hok, rfl, hsealed, hfinish⟩⟩ :=
      runs_runStep_iff.mp h
  · rw [observed_nil_iff.mp (observed_elapsed_iff.mp hclock).2]
    exact .refl _ _
  · obtain ⟨rfl, hrest⟩ := observed_elapsed_iff.mp hclock
    obtain ⟨next, ⟨hle, hnext⟩, hrest⟩ := observed_cons_iff.mp hrest
    replace hrest := observed_skip rfl hrest
    have htail : Observed Ticks next tail last := by
      refine observed_still (fun event hevent => ?_) hrest
      rcases hsealed with ⟨-, rfl⟩ | ⟨-, broke, rfl⟩
      · cases hevent
      · rw [List.mem_singleton.mp hevent]
        rfl
    have hcall := (action.call_watchdogMs (Nat.le_max_right (stepBudgetMs elapsed deadline)
      minStepBudgetMs)).2
    exact (within_of_call hstart hcall hle hnext).trans (finishStep_within hfinish htail)

end

/-! ## The blocks -/

section

variable {budget clock last index : Nat} {step : BatchStep} {progress : Progress} {trace : Trace}
  {result : Except (Option String) Progress}

theorem runs_mainStep_within {stepsDeadline : Nat}
    (h : Runs (mainStep stepsDeadline index step progress) trace result)
    (hclock : Observed Ticks clock trace last) : Within stepsDeadline clock last := by
  simp only [mainStep, abandoned_bind, interrupted_bind, elapsed_bind] at h
  split at h
  · exact within_of_done h hclock
  rw [runs_ask_iff] at h
  obtain ⟨abandoned, rest, rfl, h⟩ := h
  replace hclock := observed_skip rfl hclock
  split at h
  · exact within_of_done h hclock
  rw [runs_ask_iff] at h
  obtain ⟨interrupted, rest, rfl, h⟩ := h
  replace hclock := observed_skip rfl hclock
  split at h
  · exact within_of_done h hclock
  rw [runs_ask_iff] at h
  obtain ⟨elapsed, rest, rfl, h⟩ := h
  rw [observed_elapsed_iff] at hclock
  obtain ⟨rfl, hclock⟩ := hclock
  split at h
  · exact within_of_done h hclock
  rename_i hlate
  have hstart := Nat.lt_of_not_le hlate
  rcases runs_bind_iff.mp h with ⟨payload, rfl, hrun⟩ | ⟨run, middle, rest, rfl, hrun, h⟩
  · exact runStep_within hrun hclock hstart
  obtain ⟨next, hmiddle, hclock⟩ := observed_append_iff.mp hclock
  refine (runStep_within hrun hmiddle hstart).trans ?_
  have hranking := (rankOutcome_ensures (index + 1) stepsDeadline run.outcome run.reading)
  rcases runs_bind_iff.mp h with ⟨payload, rfl, hrank⟩ | ⟨outcome, front, back, rfl, hrank, h⟩
  · exact ((hranking.of_runs hrank).2.2 payload rfl).elim
  · exact within_of_done h (observed_still
      (fun event hevent => ((hranking.of_runs hrank).1 event hevent).2.1) hclock)

theorem runs_alwaysStep_within (h : Runs (alwaysStep budget index step progress) trace result)
    (hclock : Observed Ticks clock trace last) : Within budget clock last := by
  simp only [alwaysStep, elapsed_bind] at h
  split at h
  · exact within_of_done h hclock
  rw [runs_ask_iff] at h
  obtain ⟨elapsed, rest, rfl, h⟩ := h
  rw [observed_elapsed_iff] at hclock
  obtain ⟨rfl, hclock⟩ := hclock
  split at h
  · exact within_of_done h hclock
  rename_i hlate
  have hstart := Nat.lt_of_not_le hlate
  rcases runs_bind_iff.mp h with ⟨payload, rfl, hrun⟩ | ⟨run, middle, rest, rfl, hrun, h⟩
  · exact runStep_within hrun hclock hstart
  obtain ⟨next, hmiddle, hclock⟩ := observed_append_iff.mp hclock
  exact (runStep_within hrun hmiddle hstart).trans (within_of_done h hclock)

theorem forEach_within {deadline : Nat} {body : Nat → BatchStep → Progress → Executor Progress}
    (hbody : ∀ index step progress trace result clock last,
      Runs (body index step progress) trace result → Observed Ticks clock trace last →
        Within deadline clock last)
    {items : List BatchStep} (h : Runs (forEach body 0 items progress) trace result)
    (hclock : Observed Ticks clock trace last) : Within deadline clock last := by
  have hloop := runs_forEach
    (fun _ _ trace => ∀ last, Observed Ticks clock trace last → Within deadline clock last)
    (fun trace => ∀ last, Observed Ticks clock trace last → Within deadline clock last) ?_ []
    (fun last hlast => by
      rw [observed_nil_iff.mp hlast]
      exact .refl _ _) h
  · cases result with
    | ok progress => exact hloop.1 progress rfl last hclock
    | error payload => exact hloop.2 payload rfl last hclock
  · intro index step progress before trace result _ hbefore hruns
    have hturn : ∀ last, Observed Ticks clock (before ++ trace) last →
        Within deadline clock last := by
      intro last hlast
      obtain ⟨middle, hfront, hback⟩ := observed_append_iff.mp hlast
      exact (hbefore middle hfront).trans (hbody _ _ _ _ _ _ _ hruns hback)
    exact ⟨fun _ _ => hturn, fun _ _ => hturn⟩

theorem mainBlock_within {steps : List BatchStep} (h : Runs (mainBlock steps budget) trace result)
    (hclock : Observed Ticks clock trace last) : Within (stepsDeadline budget) clock last :=
  forEach_within (fun _ _ _ _ _ _ _ => runs_mainStep_within) h hclock

theorem alwaysBlock_within {always : List BatchStep} {main : Progress}
    (h : Runs (alwaysBlock always budget main) trace result)
    (hclock : Observed Ticks clock trace last) : Within budget clock last :=
  forEach_within (fun _ _ _ _ _ _ _ => runs_alwaysStep_within) h hclock

theorem alwaysStep_gate (h : Runs (alwaysStep budget index step progress) trace result)
    (hclock : Observed Ticks clock trace last) {event : Happening} (hevent : event ∈ trace)
    (hsite : event.query.site = .gate .always (index + 1)) :
    event = ⟨⟨.gate .always (index + 1), .elapsed⟩, clock⟩ := by
  have hrest (elapsed : Nat) (middle : Trace) (reading : Held) (htrace : StepTrace .always step
        (index + 1) progress.bound middle reading)
      (hclock : Observed Ticks clock
        (⟨⟨.gate .always (index + 1), .elapsed⟩, elapsed⟩ :: middle) last)
      (hevent : event ∈ (⟨⟨.gate .always (index + 1), .elapsed⟩, elapsed⟩ :: middle : Trace)) :
      event = ⟨⟨.gate .always (index + 1), .elapsed⟩, clock⟩ := by
    rcases List.mem_cons.mp hevent with rfl | hevent
    · obtain ⟨rfl, -⟩ := observed_elapsed_iff.mp hclock
      rfl
    · exact absurd hsite (htrace.inside event hevent)
  rcases runs_alwaysStep h with ⟨next, -, hturn⟩ | ⟨_, elapsed, middle, -, rfl, -, -, hrun⟩
  · cases hturn with
    | withheld seen hseen => cases hevent
    | late elapsed hkept hlate why =>
      obtain ⟨rfl, -⟩ := observed_elapsed_iff.mp hclock
      exact List.mem_singleton.mp hevent
    | ran elapsed middle run hkept hintime hrun =>
      exact hrest elapsed middle _ (runStep_returns hrun).trace hclock hevent
  · obtain ⟨-, reading, htrace⟩ := runStep_unwinds hrun
    exact hrest elapsed middle reading htrace hclock hevent

theorem alwaysBlock_firstGate {always : List BatchStep} {main : Progress} {elapsed : Nat}
    (h : Runs (alwaysBlock always budget main) trace result)
    (hclock : Observed Ticks clock trace last)
    (hgate : ⟨⟨.gate .always 1, .elapsed⟩, elapsed⟩ ∈ trace) : elapsed = clock := by
  have hloop := runs_forEach
    (fun index _ trace => (index = 0 → trace = []) ∧ ∀ last, Observed Ticks clock trace last →
      ∀ elapsed, ⟨⟨.gate .always 1, .elapsed⟩, elapsed⟩ ∈ trace → elapsed = clock)
    (fun trace => ∀ last, Observed Ticks clock trace last →
      ∀ elapsed, ⟨⟨.gate .always 1, .elapsed⟩, elapsed⟩ ∈ trace → elapsed = clock) ?_ []
    ⟨fun _ => rfl, by simp⟩ h
  · cases result with
    | ok progress => exact (hloop.1 progress rfl).2 last hclock elapsed hgate
    | error payload => exact hloop.2 payload rfl last hclock elapsed hgate
  · rintro index step progress before trace result _ ⟨hfirst, hbefore⟩ hruns
    have hturn : ∀ last, Observed Ticks clock (before ++ trace) last → ∀ elapsed,
        ⟨⟨.gate .always 1, .elapsed⟩, elapsed⟩ ∈ before ++ trace → elapsed = clock := by
      intro last hlast elapsed hmem
      obtain ⟨middle, hfront, hback⟩ := observed_append_iff.mp hlast
      rcases List.mem_append.mp hmem with hmem | hmem
      · exact hbefore middle hfront elapsed hmem
      -- a gate of the first step is asked in the first turn
      · have hindex : index = 0 := by
          have hstep := alwaysStep_asks hruns _ hmem
          have heq : 1 = index + 1 := (Prod.mk.inj (Option.some.inj hstep)).2
          omega
        subst hindex
        rw [hfirst rfl, observed_nil_iff] at hfront
        have hevent := alwaysStep_gate hruns hback hmem rfl
        injection hevent with _ hanswer
        exact hanswer.trans hfront
    exact ⟨fun _ _ => ⟨by simp, hturn⟩, fun _ _ => hturn⟩

/-- The probe is made whatever the time is, so it may end one floor behind a cleanup
that itself ended one floor behind the budget. -/
theorem sessionAfter_bounded {main cleanup : Progress} {result : Except (Option String) SessionAfter}
    (h : Runs (sessionAfter main cleanup budget) trace result)
    (hclock : Observed Ticks clock trace last) (hstart : clock < budget + overshoot) :
    last < budget + 2 * overshoot := by
  have hcalm : clock < budget + 2 * overshoot := by
    omega
  simp only [sessionAfter, probeState, elapsed_bind, guarded_engine_bind,
    guarded_running_bind] at h
  split at h
  · rw [clock_of_done h hclock]
    exact hcalm
  split at h
  · rw [clock_of_done h hclock]
    exact hcalm
  rw [runs_ask_iff] at h
  obtain ⟨running, rest, rfl, h⟩ := h
  replace hclock := observed_skip rfl hclock
  split at h
  · rw [clock_of_done h hclock]
    exact hcalm
  simp only [runs_ask_iff] at h
  obtain ⟨elapsed, rest, rfl, answer, rest, rfl, h⟩ := h
  rw [observed_elapsed_iff] at hclock
  obtain ⟨rfl, hclock⟩ := hclock
  obtain ⟨next, ⟨-, hnext⟩, hclock⟩ := observed_cons_iff.mp hclock
  have hrest : rest = [] := by
    split at h
    · split at h <;> exact (runs_done_iff.mp h).1
    · exact (runs_done_iff.mp h).1
  subst hrest
  obtain rfl := observed_nil_iff.mp hclock
  change last ≤ elapsed + watchdogFrom elapsed budget * nanosPerMs at hnext
  by_cases hlate : elapsed < budget
  · have hbound := watchdogFrom_lt hlate
    omega
  · have hnone : watchdogFrom elapsed budget = minStepBudgetMs := by
      rw [watchdogFrom, stepBudgetMs, Nat.sub_eq_zero_of_le (Nat.le_of_not_lt hlate)]
      rfl
    rw [hnone] at hnext
    change last ≤ elapsed + overshoot at hnext
    omega

end

/-! ## Watchdogs -/

def Query.Armed (query : Query) : Prop :=
  ∀ call, query.engineCall? = some call → minStepBudgetMs ≤ call.watchdogMs

theorem armed_of_still {query : Query} (h : query.engineCall? = none) : query.Armed := by
  intro call hcall
  rw [h] at hcall
  cases hcall

theorem AsksToFinish.armed {block : Block} {position : Nat} {query : Query}
    (h : AsksToFinish block position query) : query.Armed := by
  rcases h with rfl | ⟨-, hrequest | ⟨line, ms, hms, hrequest⟩⟩
  · exact armed_of_still rfl
  · exact armed_of_still (by simp [Query.engineCall?, hrequest])
  · intro call hcall
    simp only [Query.engineCall?, hrequest, Option.some.injEq] at hcall
    rw [← hcall]
    exact hms

theorem AsksToProbe.armed {query : Query} (h : AsksToProbe query) : query.Armed := by
  rcases h with ⟨-, hrequest | hrequest | ⟨ms, hms, hrequest⟩⟩
  · exact armed_of_still (by simp [Query.engineCall?, hrequest])
  · exact armed_of_still (by simp [Query.engineCall?, hrequest])
  · intro call hcall
    simp only [Query.engineCall?, hrequest, Option.some.injEq] at hcall
    rw [← hcall]
    exact hms

def Arms {α : Type} (program : Executor α) : Prop :=
  Ensures Query.Armed (fun _ => True) (fun _ => True) program

theorem runStep_armed (block : Block) (step : BatchStep) (position deadline : Nat)
    (bound : Bindings) (alreadyGone : Bool) :
    Arms (runStep block step position deadline bound alreadyGone) := by
  simp only [runStep, elapsed_bind]
  refine ensures_ask (armed_of_still rfl) fun elapsed => ?_
  split
  · exact trivial
  rename_i action checks hok
  simp only [guarded_engine_bind, held_bind]
  have hcall : Query.Armed ⟨.action block position,
      .engine (action.call (watchdogFrom elapsed deadline))⟩ := by
    intro call hcall
    obtain rfl := Option.some.inj hcall
    exact (action.call_watchdogMs (Nat.le_max_right _ _)).1
  refine ensures_ask hcall fun answer => ?_
  refine ensures_ask (armed_of_still rfl) fun reading => ?_
  have hseal : Arms (sealIfLost (.reading block position) reading.read) := by
    simp only [sealIfLost, sealing_bind]
    split
    · exact trivial
    · exact ensures_ask (armed_of_still rfl) fun _ => trivial
  refine hseal.bind fun _ _ => ?_
  exact (finishStep_ensures block step position deadline bound alreadyGone action checks _ _).mono
    (fun _ => AsksToFinish.armed) (fun _ _ => trivial) (fun _ _ => trivial)

theorem mainStep_armed (stepsDeadline index : Nat) (step : BatchStep) (progress : Progress) :
    Arms (mainStep stepsDeadline index step progress) := by
  simp only [mainStep, abandoned_bind, interrupted_bind, elapsed_bind]
  split
  · exact trivial
  refine ensures_ask (armed_of_still rfl) fun abandoned => ?_
  split
  · exact trivial
  refine ensures_ask (armed_of_still rfl) fun interrupted => ?_
  split
  · exact trivial
  refine ensures_ask (armed_of_still rfl) fun elapsed => ?_
  split
  · exact trivial
  refine (runStep_armed _ _ _ _ _ _).bind fun run _ => ?_
  have hrank : Arms (rankOutcome (index + 1) stepsDeadline run.outcome run.reading) :=
    (rankOutcome_ensures _ _ _ _).mono (fun _ hgate => armed_of_still hgate.2.1)
      (fun _ _ => trivial) fun _ => False.elim
  exact hrank.bind fun _ _ => trivial

theorem alwaysStep_armed (budget index : Nat) (step : BatchStep) (progress : Progress) :
    Arms (alwaysStep budget index step progress) := by
  simp only [alwaysStep, elapsed_bind]
  split
  · exact trivial
  refine ensures_ask (armed_of_still rfl) fun elapsed => ?_
  split
  · exact trivial
  exact (runStep_armed _ _ _ _ _ _).bind fun run _ => trivial

theorem run_armed (op : BatchOp) (budget : Nat) : Arms (run op budget) := by
  refine (Ensures.forEach (mainStep_armed _) 0 _ _).bind fun main _ => ?_
  have hseal : Arms (sealRollback main) := by
    refine (sealRollback_ensures main).mono ?_ (fun _ _ => trivial) fun _ => False.elim
    rintro query rfl
    exact armed_of_still rfl
  refine hseal.bind fun outcome _ => ?_
  refine (Ensures.forEach (alwaysStep_armed _) 0 _ _).bind fun cleanup _ => ?_
  have hprobe : Arms (sessionAfter main cleanup budget) :=
    (sessionAfter_ensures main cleanup budget).mono (fun _ => AsksToProbe.armed)
      (fun _ _ => trivial) fun _ => False.elim
  refine hprobe.bind fun after _ => ?_
  exact ensures_ask (armed_of_still rfl) fun _ => trivial

/-! ## The batch as a whole -/

theorem stepsDeadline_lt {budget : Nat} (h : minBatchMs * nanosPerMs ≤ budget) :
    0 < budget ∧ stepsDeadline budget + overshoot ≤ budget := by
  have hbatch : minBatchMs * nanosPerMs = 2 * overshoot := rfl
  have hreserve : overshoot ≤ rollbackReserve := by decide
  have hpositive : 0 < overshoot := by decide
  rw [stepsDeadline]
  omega

/-- A debugger whose clock stands still outside the engine's calls, and whose calls
return within their watchdogs. -/
structure KeepsWatchdogs {σ : Type} (host : σ → (asked : Query) → asked.Answer × σ)
    (clock : σ → Nat) : Prop where
  reads : ∀ state site, (host state ⟨site, .elapsed⟩).1 = clock state
  still : ∀ state asked, asked.engineCall? = none → clock (host state asked).2 = clock state
  returns : ∀ state site call,
    clock state ≤ clock (host state ⟨site, .engine call⟩).2 ∧
      clock (host state ⟨site, .engine call⟩).2 ≤ clock state + call.watchdogMs * nanosPerMs

section

variable {σ : Type} {host : σ → (asked : Query) → asked.Answer × σ} {clock : σ → Nat}

theorem KeepsWatchdogs.ticks (h : KeepsWatchdogs host clock) (state : σ) (asked : Query) :
    Ticks (clock state) ⟨asked, (host state asked).1⟩ (clock (host state asked).2) := by
  obtain ⟨site, request⟩ := asked
  cases request with
  | engine call => exact h.returns state site call
  | elapsed => exact ⟨h.reads state site, h.still state _ rfl⟩
  | _ => exact h.still state _ rfl

variable {op : BatchOp} {budget start last : Nat} {trace : Trace}

theorem beforeCleanup_lt {result : Except (Option String) BatchOutcome}
    (hbudget : minBatchMs * nanosPerMs ≤ budget)
    (h : Runs (mainBlock op.steps budget >>= sealRollback) trace result)
    (hclock : Observed Ticks 0 trace last) : last < budget := by
  obtain ⟨hpositive, hreserve⟩ := stepsDeadline_lt hbudget
  have hmain : ∀ {trace : Trace} {result : Except (Option String) Progress} {last : Nat},
      Runs (mainBlock op.steps budget) trace result → Observed Ticks 0 trace last →
      last < budget := by
    intro trace result last hruns hclock
    obtain ⟨-, hlast | hlast⟩ := mainBlock_within hruns hclock
    · omega
    · omega
  rcases runs_bind_iff.mp h with ⟨payload, rfl, hruns⟩ | ⟨main, front, back, rfl, hruns, hseal⟩
  · exact hmain hruns hclock
  · obtain ⟨middle, hfront, hback⟩ := observed_append_iff.mp hclock
    have hasks := ((sealRollback_ensures main).of_runs hseal).1
    have hstill : Observed Ticks middle [] last := by
      refine observed_still (fun event hevent => ?_) (List.append_nil back ▸ hback)
      rw [hasks event hevent]
      rfl
    rw [observed_nil_iff.mp hstill]
    exact hmain hruns hfront

theorem cleanup_bounded {main : Progress} {outcome : BatchOutcome} {front back : Trace}
    {result : Except (Option String) Progress}
    (hbudget : minBatchMs * nanosPerMs ≤ budget)
    (hbefore : Runs (mainBlock op.steps budget >>= sealRollback) front (.ok outcome))
    (hruns : Runs (alwaysBlock op.always budget main) back result)
    (hclock : Observed Ticks 0 (front ++ back) last) :
    last < budget + overshoot ∧
      ∀ elapsed, ⟨⟨.gate .always 1, .elapsed⟩, elapsed⟩ ∈ back → elapsed < budget := by
  obtain ⟨middle, hfront, hback⟩ := observed_append_iff.mp hclock
  have hstart := beforeCleanup_lt hbudget hbefore hfront
  refine ⟨?_, fun elapsed hgate => ?_⟩
  · obtain ⟨-, rfl | hlast⟩ := alwaysBlock_within hruns hback
    · omega
    · exact hlast
  · rw [alwaysBlock_firstGate hruns hback hgate]
    exact hstart

theorem beforeCleanup_ungated {result : Except (Option String) BatchOutcome} {elapsed : Nat}
    (h : Runs (mainBlock op.steps budget >>= sealRollback) trace result) :
    ⟨⟨.gate .always 1, .elapsed⟩, elapsed⟩ ∉ trace := by
  intro hgate
  have hmain : ∀ {trace : Trace} {result : Except (Option String) Progress},
      Runs (mainBlock op.steps budget) trace result →
      ⟨⟨.gate .always 1, .elapsed⟩, elapsed⟩ ∉ trace := by
    intro trace result hruns hgate
    obtain ⟨position, hstep⟩ := mainBlock_asks hruns _ hgate
    cases hstep
  rcases runs_bind_iff.mp h with ⟨payload, rfl, hruns⟩ | ⟨main, front, back, rfl, hruns, hseal⟩
  · exact hmain hruns hgate
  · rcases List.mem_append.mp hgate with hgate | hgate
    · exact hmain hruns hgate
    · cases ((sealRollback_ensures main).of_runs hseal).1 _ hgate

theorem runs_bounded {result : Except (Option String) BatchReport}
    (hbudget : minBatchMs * nanosPerMs ≤ budget) (h : Runs (run op budget) trace result)
    (hclock : Observed Ticks 0 trace last) :
    last < budget + 2 * overshoot ∧
      (∀ elapsed, ⟨⟨.gate .always 1, .elapsed⟩, elapsed⟩ ∈ trace → elapsed < budget) ∧
      ∀ report, result = .ok report → report.elapsed = last := by
  rcases runs_run h with ⟨report, rfl, ⟨hcompletes⟩⟩ | ⟨payload, rfl, hmain |
    ⟨main, outcome, mainTrace, sealTrace, alwaysTrace, rfl, hmain, hseal, halways⟩⟩
  · obtain ⟨main, cleanup, mainTrace, sealTrace, alwaysTrace, probeTrace, mainRuns, sealRuns,
      alwaysRuns, probeRuns, rfl, -⟩ := hcompletes
    have hbefore : Runs (mainBlock op.steps budget >>= sealRollback) (mainTrace ++ sealTrace)
        (.ok report.outcome) :=
      runs_bind_iff.mpr (Or.inr ⟨main, mainTrace, sealTrace, rfl, mainRuns, sealRuns⟩)
    obtain ⟨middle, hfront, hback⟩ := observed_append_iff.mp hclock
    obtain ⟨hmiddle, hgates⟩ := cleanup_bounded hbudget hbefore alwaysRuns hfront
    obtain ⟨probed, hprobe, hreport⟩ := observed_append_iff.mp hback
    rw [observed_elapsed_iff, observed_nil_iff] at hreport
    obtain ⟨helapsed, rfl⟩ := hreport
    refine ⟨sessionAfter_bounded probeRuns hprobe hmiddle, ?_, ?_⟩
    · intro elapsed hgate
      simp only [List.mem_append, List.mem_singleton] at hgate
      rcases hgate with (hgate | hgate) | hgate | hgate
      · exact absurd (List.mem_append.mpr hgate) (beforeCleanup_ungated hbefore)
      · exact hgates elapsed hgate
      · cases (((sessionAfter_ensures main cleanup budget).of_runs probeRuns).1 _ hgate).1
      · cases hgate
    · intro other hother
      obtain rfl := Except.ok.inj hother
      exact helapsed
  · have hbefore : Runs (mainBlock op.steps budget >>= sealRollback) trace (.error payload) :=
      runs_bind_iff.mpr (Or.inl ⟨payload, rfl, hmain⟩)
    have hlast := beforeCleanup_lt hbudget hbefore hclock
    exact ⟨by omega, fun elapsed hgate => absurd hgate (beforeCleanup_ungated hbefore),
      by simp⟩
  · have hbefore : Runs (mainBlock op.steps budget >>= sealRollback) (mainTrace ++ sealTrace)
        (.ok outcome) :=
      runs_bind_iff.mpr (Or.inr ⟨main, mainTrace, sealTrace, rfl, hmain, hseal⟩)
    obtain ⟨hlast, hgates⟩ := cleanup_bounded hbudget hbefore halways hclock
    refine ⟨by omega, fun elapsed hgate => ?_, by simp⟩
    rcases List.mem_append.mp hgate with hgate | hgate
    · exact absurd hgate (beforeCleanup_ungated hbefore)
    · exact hgates elapsed hgate

/-- The cleanup starts inside the budget, so that its first step is never too late;
the batch returns within its allowance; and no call is armed below the floor. -/
theorem batch_in_time (keeps : KeepsWatchdogs host clock) {state : σ} (hstart : clock state = 0)
    (op : BatchOp) (budget : Nat) (hbudget : minBatchMs * nanosPerMs ≤ budget) :
    let execution := execute host state (run op budget)
    clock (execute host state (mainBlock op.steps budget >>= sealRollback)).state < budget ∧
    (∀ elapsed, ⟨⟨.gate .always 1, .elapsed⟩, elapsed⟩ ∈ execution.trace → elapsed < budget) ∧
    clock execution.state ≤ budget + overrunAllowance ∧
    (∀ report, execution.result = .ok report → report.elapsed ≤ budget + overrunAllowance) ∧
    ∀ event ∈ execution.trace, ∀ call, event.query.engineCall? = some call →
      minStepBudgetMs ≤ call.watchdogMs := by
  intro execution
  have hobserved : ∀ {α : Type} (program : Executor α), Observed Ticks 0
      (execute host state program).trace (clock (execute host state program).state) := by
    intro α program
    rw [← hstart]
    exact observed_execute host clock keeps.ticks state program
  have hruns : Runs (run op budget) execution.trace execution.result :=
    runs_execute host state (run op budget)
  obtain ⟨hlast, hgates, hreport⟩ := runs_bounded hbudget hruns (hobserved (run op budget))
  have hallowance : 2 * overshoot ≤ overrunAllowance := by decide
  have hend : clock execution.state ≤ budget + overrunAllowance := by
    have hlast' : clock execution.state < budget + 2 * overshoot := hlast
    omega
  refine ⟨beforeCleanup_lt hbudget (runs_execute host state _) (hobserved _), hgates, hend, ?_, ?_⟩
  · intro report hresult
    rw [hreport report hresult]
    exact hend
  · exact fun event hevent => ((run_armed op budget).of_runs hruns).1 event hevent

end

def exhausting (clock : Nat) : (asked : Query) → asked.Answer × Nat
  | ⟨_, .engine call⟩ =>
    (.returned (.ok ⟨"*BUSY*", false, false⟩), clock + call.watchdogMs * nanosPerMs)
  | ⟨_, .hasTarget⟩ => (.returned (some true), clock)
  | ⟨_, .replaced⟩ => (.returned .same, clock)
  | ⟨_, .running⟩ => (.returned (some false), clock)
  | ⟨_, .elapsed⟩ => (clock, clock)
  | ⟨_, .abandoned⟩ => (false, clock)
  | ⟨_, .interrupted⟩ => (false, clock)
  | ⟨_, .sealing _⟩ => (false, clock)

def patchWithRestore : BatchOp where
  steps := [⟨none, .command "eb nt!flag 1", [], none⟩, ⟨none, .command "db nt!flag l1", [], none⟩]
  always := [⟨none, .command "eb nt!flag 0", [], none⟩]

theorem exhausting_engine (clock : Nat) (site : Site) (call : EngineCall) :
    (exhausting clock ⟨site, .engine call⟩).2 = clock + call.watchdogMs * nanosPerMs := rfl

theorem exhausting_keepsWatchdogs : KeepsWatchdogs exhausting fun clock => clock where
  reads := fun _ _ => rfl
  still := by
    rintro clock ⟨site, request⟩ hstill
    cases request with
    | engine call => cases hstill
    | _ => rfl
  returns := by
    intro clock site call
    rw [exhausting_engine]
    exact ⟨Nat.le_add_right _ _, Nat.le_refl _⟩

theorem patchWithRestore_in_time :
    (execute exhausting 0 (run patchWithRestore (minBatchMs * nanosPerMs))).state ≤
      minBatchMs * nanosPerMs + overrunAllowance :=
  (batch_in_time exhausting_keepsWatchdogs rfl patchWithRestore (minBatchMs * nanosPerMs)
    (Nat.le_refl _)).2.2.1

end WindbgMcp.Batch
