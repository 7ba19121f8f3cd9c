import WindbgMcp.Batch.StepRuns

/-! Every run of one turn of the two blocks: the gates before a step, the step,
and what the block makes of it. -/
namespace WindbgMcp.Batch

open Library Program

def IsGate (block : Block) (position : Nat) (query : Query) : Prop :=
  query.site = .gate block position ∧ query.engineCall? = none ∧ query.request ≠ .replaced

theorem IsGate.action?_eq {block : Block} {position : Nat} {query : Query}
    (h : IsGate block position query) : query.action? = none := by
  rw [Query.action?, h.1]

theorem IsGate.step?_eq {block : Block} {position : Nat} {query : Query}
    (h : IsGate block position query) : query.step? = some (block, position) := by
  rw [Query.step?, h.1]

def Gates (block : Block) (position : Nat) (trace : Trace) : Prop :=
  ∀ event ∈ trace, IsGate block position event.query

section

variable {block : Block} {position : Nat} {trace : Trace}

theorem Gates.actions_eq (h : Gates block position trace) : actions trace = [] :=
  List.filterMap_eq_nil_iff.mpr fun event hevent => (h event hevent).action?_eq

end

def StepOutcome.clean (outcome : StepOutcome) : Bool :=
  outcome.ok && !outcome.cutShort && !outcome.targetGone

/-- What the ranking makes of a step: the batch stays committed only after a clean
step with the target held, and otherwise stops at this position. -/
def Ranks (position : Nat) (done : StepOutcome) (reading : Held) (outcome : BatchOutcome) : Prop :=
  (outcome = .committed ∧ done.clean = true ∧ reading = .same) ∨
    (outcome.position? = some position ∧ (outcome.withheld = true ↔ reading ≠ .same))

theorem rankOutcome_ensures (position stepsDeadline : Nat) (done : StepOutcome) (reading : Held) :
    Ensures (IsGate .steps position) (Ranks position done reading) (fun _ => False)
      (rankOutcome position stepsDeadline done reading) := by
  cases reading with
  | replaced why => exact Or.inr ⟨rfl, by simp [BatchOutcome.withheld]⟩
  | uncertain why => exact Or.inr ⟨rfl, by simp [BatchOutcome.withheld]⟩
  | same =>
    simp only [rankOutcome, Held.lost, abandoned_bind, elapsed_bind]
    split
    · exact Or.inr ⟨rfl, by simp [BatchOutcome.withheld]⟩
    rename_i hgone
    split
    · refine ensures_ask ⟨rfl, rfl, by simp⟩ fun abandoned => ?_
      cases (abandoned : Bool)
      · exact Or.inr ⟨rfl, by simp [BatchOutcome.withheld]⟩
      · exact Or.inr ⟨rfl, by simp [BatchOutcome.withheld]⟩
    rename_i hcut
    split
    · rename_i hok
      refine Or.inl ⟨rfl, ?_, rfl⟩
      simp [StepOutcome.clean, StepOutcome.ok, hok, hcut, hgone]
    · exact Or.inr ⟨rfl, by simp [BatchOutcome.withheld]⟩
    · refine ensures_ask ⟨rfl, rfl, by simp⟩ fun elapsed => ?_
      by_cases hlate : stepsDeadline ≤ elapsed
      · simp only [hlate, if_true]
        exact Or.inr ⟨rfl, by simp [BatchOutcome.withheld]⟩
      · simp only [hlate, if_false]
        exact Or.inr ⟨rfl, by simp [BatchOutcome.withheld]⟩

theorem skipReason_eq_none_iff (outcome : BatchOutcome) :
    outcome.skipReason = none ↔ outcome = .committed := by
  cases outcome <;> simp [BatchOutcome.skipReason]

def Progress.record (progress : Progress) (duringCleanup : Bool) (outcome : BatchOutcome)
    (run : StepRun) : Progress where
  bound := run.bound
  outcome := outcome
  ended := progress.ended || run.outcome.targetGone
  unverified := (run.reading.lost.map (.seen duringCleanup run.outcome.rendered)).or
    progress.unverified
  done := progress.done ++ [run.outcome]

/-- The turn of a main step that returns. -/
inductive MainTurn (stepsDeadline index : Nat) (step : BatchStep) (progress : Progress) :
    Trace → Progress → Prop where
  | stopped (why : String) (hstopped : progress.outcome ≠ .committed) :
      MainTurn stepsDeadline index step progress []
        (progress.skip progress.outcome (index + 1) step why)
  | gated (outcome : BatchOutcome) (why : String) (gates : Trace)
      (hcommitted : progress.outcome = .committed)
      (houtcome : outcome.position? = some (index + 1)) (hkept : outcome.withheld = false)
      (hgates : Gates .steps (index + 1) gates) :
      MainTurn stepsDeadline index step progress gates
        (progress.skip outcome (index + 1) step why)
  | ran (gates middle ranking : Trace) (run : StepRun) (outcome : BatchOutcome)
      (hcommitted : progress.outcome = .committed) (hgates : Gates .steps (index + 1) gates)
      (hrun : Runs (runStep .steps step (index + 1) stepsDeadline progress.bound progress.ended)
        middle (.ok run))
      (hranking : Gates .steps (index + 1) ranking)
      (hranks : Ranks (index + 1) run.outcome run.reading outcome) :
      MainTurn stepsDeadline index step progress (gates ++ (middle ++ ranking))
        (progress.record false outcome run)

theorem runs_mainStep {stepsDeadline index : Nat} {step : BatchStep} {progress : Progress}
    {trace : Trace} {result : Except (Option String) Progress}
    (h : Runs (mainStep stepsDeadline index step progress) trace result) :
    (∃ next, result = .ok next ∧ MainTurn stepsDeadline index step progress trace next) ∨
      ∃ payload gates middle, result = .error payload ∧ trace = gates ++ middle ∧
        progress.outcome = .committed ∧ Gates .steps (index + 1) gates ∧
        Runs (runStep .steps step (index + 1) stepsDeadline progress.bound progress.ended)
          middle (.error payload) := by
  simp only [mainStep, abandoned_bind, interrupted_bind, elapsed_bind] at h
  split at h
  · rename_i why hreason
    simp only [pure_eq, runs_done_iff] at h
    obtain ⟨rfl, rfl⟩ := h
    refine Or.inl ⟨_, rfl, .stopped why fun hcommitted => ?_⟩
    rw [hcommitted] at hreason
    cases hreason
  rename_i hreason
  have hcommitted := (skipReason_eq_none_iff _).mp hreason
  rw [runs_ask_iff] at h
  obtain ⟨abandoned, rest, rfl, h⟩ := h
  split at h
  · simp only [pure_eq, runs_done_iff] at h
    obtain ⟨rfl, rfl⟩ := h
    refine Or.inl ⟨_, rfl, .gated _ _ _ hcommitted rfl rfl ?_⟩
    simp [Gates, IsGate, Query.engineCall?]
  rw [runs_ask_iff] at h
  obtain ⟨interrupted, rest, rfl, h⟩ := h
  split at h
  · simp only [pure_eq, runs_done_iff] at h
    obtain ⟨rfl, rfl⟩ := h
    refine Or.inl ⟨_, rfl, .gated _ _ _ hcommitted rfl rfl ?_⟩
    simp [Gates, IsGate, Query.engineCall?]
  rw [runs_ask_iff] at h
  obtain ⟨elapsed, rest, rfl, h⟩ := h
  have hgates : Gates .steps (index + 1)
      [⟨⟨.gate .steps (index + 1), .abandoned⟩, abandoned⟩,
        ⟨⟨.gate .steps (index + 1), .interrupted⟩, interrupted⟩,
        ⟨⟨.gate .steps (index + 1), .elapsed⟩, elapsed⟩] := by
    simp [Gates, IsGate, Query.engineCall?]
  split at h
  · simp only [pure_eq, runs_done_iff] at h
    obtain ⟨rfl, rfl⟩ := h
    exact Or.inl ⟨_, rfl, .gated _ _ _ hcommitted rfl rfl hgates⟩
  rcases runs_bind_iff.mp h with ⟨payload, rfl, hrun⟩ | ⟨run, middle, ranking, rfl, hrun, h⟩
  · exact Or.inr ⟨payload, _, rest, rfl, rfl, hcommitted, hgates, hrun⟩
  rcases runs_bind_iff.mp h with ⟨payload, rfl, hrank⟩ | ⟨outcome, ranking, last, rfl, hrank, h⟩
  · exact (((rankOutcome_ensures _ _ _ _).of_runs hrank).2.2 payload rfl).elim
  simp only [pure_eq, runs_done_iff] at h
  obtain ⟨rfl, rfl⟩ := h
  have hranked := (rankOutcome_ensures _ _ _ _).of_runs hrank
  rw [List.append_nil]
  exact Or.inl ⟨_, rfl, .ran _ middle ranking run outcome hcommitted hgates hrun hranked.1
    (hranked.2.1 outcome rfl)⟩

/-- The turn of an `always` step that returns. -/
inductive AlwaysTurn (budget index : Nat) (step : BatchStep) (progress : Progress) :
    Trace → Progress → Prop where
  | withheld (seen : Unverified) (hseen : progress.unverified = some seen) :
      AlwaysTurn budget index step progress []
        (progress.skip progress.outcome (index + 1) step (withheldReason seen))
  | late (elapsed : Nat) (hkept : progress.unverified = none) (hlate : budget ≤ elapsed)
      (why : String) :
      AlwaysTurn budget index step progress [⟨⟨.gate .always (index + 1), .elapsed⟩, elapsed⟩]
        (progress.skip progress.outcome (index + 1) step why)
  | ran (elapsed : Nat) (middle : Trace) (run : StepRun) (hkept : progress.unverified = none)
      (hintime : elapsed < budget)
      (hrun : Runs (runStep .always step (index + 1) budget progress.bound progress.ended)
        middle (.ok run)) :
      AlwaysTurn budget index step progress
        (⟨⟨.gate .always (index + 1), .elapsed⟩, elapsed⟩ :: middle)
        (progress.record true progress.outcome run)

theorem runs_alwaysStep {budget index : Nat} {step : BatchStep} {progress : Progress}
    {trace : Trace} {result : Except (Option String) Progress}
    (h : Runs (alwaysStep budget index step progress) trace result) :
    (∃ next, result = .ok next ∧ AlwaysTurn budget index step progress trace next) ∨
      ∃ (payload : Option String) (elapsed : Nat) (middle : Trace), result = .error payload ∧
        trace = ⟨⟨.gate .always (index + 1), .elapsed⟩, elapsed⟩ :: middle ∧
        progress.unverified = none ∧ elapsed < budget ∧
        Runs (runStep .always step (index + 1) budget progress.bound progress.ended)
          middle (.error payload) := by
  simp only [alwaysStep, elapsed_bind] at h
  split at h
  · rename_i seen hseen
    simp only [pure_eq, runs_done_iff] at h
    obtain ⟨rfl, rfl⟩ := h
    exact Or.inl ⟨_, rfl, .withheld seen hseen⟩
  rename_i hkept
  rw [runs_ask_iff] at h
  obtain ⟨elapsed, rest, rfl, h⟩ := h
  split at h
  · rename_i hlate
    simp only [pure_eq, runs_done_iff] at h
    obtain ⟨rfl, rfl⟩ := h
    exact Or.inl ⟨_, rfl, .late elapsed hkept hlate _⟩
  rename_i hlate
  have hintime : elapsed < budget := Nat.lt_of_not_le hlate
  rcases runs_bind_iff.mp h with ⟨payload, rfl, hrun⟩ | ⟨run, middle, last, rfl, hrun, h⟩
  · exact Or.inr ⟨payload, elapsed, rest, rfl, rfl, hkept, hintime, hrun⟩
  simp only [pure_eq, runs_done_iff] at h
  obtain ⟨rfl, rfl⟩ := h
  rw [List.append_nil]
  exact Or.inl ⟨_, rfl, .ran elapsed middle run hkept hintime hrun⟩

/-! ## Which steps a block asks for -/

theorem runStep_asks {block : Block} {step : BatchStep} {position deadline : Nat}
    {bound : Bindings} {alreadyGone : Bool} {trace : Trace}
    {result : Except (Option String) StepRun}
    (h : Runs (runStep block step position deadline bound alreadyGone) trace result) :
    ∀ event ∈ trace, event.query.step? = some (block, position) := by
  cases result with
  | ok run => exact (runStep_returns h).trace.steps
  | error payload =>
    obtain ⟨-, reading, htrace⟩ := runStep_unwinds h
    exact htrace.steps

theorem mainStep_asks {stepsDeadline index : Nat} {step : BatchStep} {progress : Progress}
    {trace : Trace} {result : Except (Option String) Progress}
    (h : Runs (mainStep stepsDeadline index step progress) trace result) :
    ∀ event ∈ trace, event.query.step? = some (.steps, index + 1) := by
  rcases runs_mainStep h with ⟨next, -, hturn⟩ | ⟨payload, gates, middle, -, rfl, -, hgates, hrun⟩
  · cases hturn with
    | stopped why hstopped => simp
    | gated outcome why gates hcommitted houtcome hkept hgates =>
      exact fun event hevent => (hgates event hevent).step?_eq
    | ran gates middle ranking run outcome hcommitted hgates hrun hranking hranks =>
      intro event hevent
      simp only [List.mem_append] at hevent
      rcases hevent with hevent | hevent | hevent
      · exact (hgates event hevent).step?_eq
      · exact runStep_asks hrun event hevent
      · exact (hranking event hevent).step?_eq
  · intro event hevent
    rcases List.mem_append.mp hevent with hevent | hevent
    · exact (hgates event hevent).step?_eq
    · exact runStep_asks hrun event hevent

theorem gated_asks {step : BatchStep} {index deadline elapsed : Nat} {bound : Bindings}
    {alreadyGone : Bool} {middle : Trace} {result : Except (Option String) StepRun}
    (h : Runs (runStep .always step (index + 1) deadline bound alreadyGone) middle result) :
    ∀ event ∈ (⟨⟨.gate .always (index + 1), .elapsed⟩, elapsed⟩ :: middle : Trace),
      event.query.step? = some (.always, index + 1) := by
  intro event hevent
  rcases List.mem_cons.mp hevent with rfl | hevent
  · rfl
  · exact runStep_asks h event hevent

theorem AlwaysTurn.asks {budget index : Nat} {step : BatchStep} {progress next : Progress}
    {trace : Trace} (h : AlwaysTurn budget index step progress trace next) :
    ∀ event ∈ trace, event.query.step? = some (.always, index + 1) := by
  cases h with
  | withheld seen hseen => simp
  | late elapsed hkept hlate why => simp [Query.step?]
  | ran elapsed middle run hkept hintime hrun => exact gated_asks hrun

theorem alwaysStep_asks {budget index : Nat} {step : BatchStep} {progress : Progress}
    {trace : Trace} {result : Except (Option String) Progress}
    (h : Runs (alwaysStep budget index step progress) trace result) :
    ∀ event ∈ trace, event.query.step? = some (.always, index + 1) := by
  rcases runs_alwaysStep h with ⟨next, -, hturn⟩ | ⟨payload, elapsed, middle, -, rfl, -, -, hrun⟩
  · exact hturn.asks
  · exact gated_asks hrun

theorem forEach_asks {block : Block} {body : Nat → BatchStep → Progress → Executor Progress}
    (hbody : ∀ index step progress trace result, Runs (body index step progress) trace result →
      ∀ event ∈ trace, event.query.step? = some (block, index + 1))
    {items : List BatchStep} {start : Progress} {trace : Trace}
    {result : Except (Option String) Progress} (h : Runs (forEach body 0 items start) trace result) :
    ∀ event ∈ trace, ∃ position, event.query.step? = some (block, position) := by
  have hloop := runs_forEach
    (fun _ _ trace => ∀ event ∈ trace, ∃ position, event.query.step? = some (block, position))
    (fun trace => ∀ event ∈ trace, ∃ position, event.query.step? = some (block, position))
    ?_ [] (by simp) h
  · cases result with
    | ok last => exact hloop.1 last rfl
    | error payload => exact hloop.2 payload rfl
  · intro index step progress before trace result _ hbefore hruns
    have hturn : ∀ event ∈ before ++ trace,
        ∃ position, event.query.step? = some (block, position) := by
      intro event hevent
      rcases List.mem_append.mp hevent with hevent | hevent
      · exact hbefore event hevent
      · exact ⟨index + 1, hbody _ _ _ _ _ hruns event hevent⟩
    exact ⟨fun _ _ => hturn, fun _ _ => hturn⟩

theorem mainBlock_asks {steps : List BatchStep} {budget : Nat} {trace : Trace}
    {result : Except (Option String) Progress} (h : Runs (mainBlock steps budget) trace result) :
    ∀ event ∈ trace, ∃ position, event.query.step? = some (.steps, position) :=
  forEach_asks (fun _ _ _ _ _ => mainStep_asks) h

theorem alwaysBlock_asks {always : List BatchStep} {budget : Nat} {main : Progress} {trace : Trace}
    {result : Except (Option String) Progress}
    (h : Runs (alwaysBlock always budget main) trace result) :
    ∀ event ∈ trace, ∃ position, event.query.step? = some (.always, position) :=
  forEach_asks (fun _ _ _ _ _ => alwaysStep_asks) h

/-! ## The whole run -/

theorem sealRollback_ensures (main : Progress) :
    Ensures (fun query => query = ⟨.seal, .sealing .rollback⟩)
      (fun outcome => outcome.withheld = main.outcome.withheld) (fun _ => False)
      (sealRollback main) := by
  simp only [sealRollback, sealing_bind]
  split
  · exact rfl
  · refine ensures_ask rfl fun brokeLate => ?_
    by_cases hlate : main.outcome = .committed ∧ (brokeLate : Bool) = true
    · rw [if_pos hlate, hlate.1]
      exact rfl
    · rw [if_neg hlate]
      exact rfl

def AsksToProbe (query : Query) : Prop :=
  query.site = .probe ∧
    (query.request = .running ∨ query.request = .elapsed ∨
      ∃ ms, minStepBudgetMs ≤ ms ∧ query.request = .engine (.command "? @$ip" ms))

theorem probeState_ensures (steps always : List StepOutcome) (budget : Nat) :
    Ensures AsksToProbe (fun _ => True) (fun _ => False) (probeState steps always budget) := by
  simp only [probeState, elapsed_bind, guarded_engine_bind, guarded_running_bind]
  split
  · exact trivial
  refine ensures_ask ⟨rfl, Or.inl rfl⟩ fun running => ?_
  split
  · exact trivial
  refine ensures_ask ⟨rfl, Or.inr (Or.inl rfl)⟩ fun elapsed => ?_
  refine ensures_ask ⟨rfl, Or.inr (Or.inr ⟨_, Nat.le_max_right _ _, rfl⟩)⟩ fun answer => ?_
  split
  · split <;> exact trivial
  · exact trivial

theorem sessionAfter_ensures (main cleanup : Progress) (budget : Nat) :
    Ensures AsksToProbe (fun _ => True) (fun _ => False) (sessionAfter main cleanup budget) := by
  simp only [sessionAfter]
  split
  · exact trivial
  · exact probeState_ensures _ _ _

theorem runs_sessionAfter_lost {main cleanup : Progress} {budget : Nat} {trace : Trace}
    {result : Except (Option String) SessionAfter} (hlost : cleanup.unverified.isSome)
    (h : Runs (sessionAfter main cleanup budget) trace result) : trace = [] := by
  obtain ⟨seen, hseen⟩ := Option.isSome_iff_exists.mp hlost
  simp only [sessionAfter, hseen, pure_eq, runs_done_iff] at h
  exact h.1

/-- A run that returns, in its five parts. -/
structure Completes (op : BatchOp) (budget : Nat) (trace : Trace) (report : BatchReport) where
  main : Progress
  cleanup : Progress
  mainTrace : Trace
  sealTrace : Trace
  alwaysTrace : Trace
  probeTrace : Trace
  mainRuns : Runs (mainBlock op.steps budget) mainTrace (.ok main)
  sealRuns : Runs (sealRollback main) sealTrace (.ok report.outcome)
  alwaysRuns : Runs (alwaysBlock op.always budget main) alwaysTrace (.ok cleanup)
  probeRuns : Runs (sessionAfter main cleanup budget) probeTrace (.ok report.after)
  trace_eq : trace = mainTrace ++ sealTrace ++ alwaysTrace ++
    (probeTrace ++ [⟨⟨.report, .elapsed⟩, report.elapsed⟩])
  steps_eq : report.steps = main.done
  always_eq : report.always = cleanup.done
  unverified_eq : report.unverified = cleanup.unverified
  budget_eq : report.budget = budget

/-- A run that returns completes; any other unwound out of one of the blocks. -/
theorem runs_run {op : BatchOp} {budget : Nat} {trace : Trace}
    {result : Except (Option String) BatchReport} (h : Runs (run op budget) trace result) :
    (∃ report, result = .ok report ∧ Nonempty (Completes op budget trace report)) ∨
      ∃ payload, result = .error payload ∧
        (Runs (mainBlock op.steps budget) trace (.error payload) ∨
          ∃ main outcome mainTrace sealTrace alwaysTrace,
            trace = mainTrace ++ sealTrace ++ alwaysTrace ∧
            Runs (mainBlock op.steps budget) mainTrace (.ok main) ∧
            Runs (sealRollback main) sealTrace (.ok outcome) ∧
            Runs (alwaysBlock op.always budget main) alwaysTrace (.error payload)) := by
  simp only [run] at h
  rcases runs_bind_iff.mp h with ⟨payload, rfl, hmain⟩ | ⟨main, mainTrace, rest, rfl, hmain, h⟩
  · exact Or.inr ⟨payload, rfl, Or.inl hmain⟩
  rcases runs_bind_iff.mp h with ⟨payload, rfl, hseal⟩ | ⟨outcome, sealTrace, rest, rfl, hseal, h⟩
  · exact (((sealRollback_ensures main).of_runs hseal).2.2 payload rfl).elim
  rcases runs_bind_iff.mp h with ⟨payload, rfl, halways⟩ |
    ⟨cleanup, alwaysTrace, rest, rfl, halways, h⟩
  · exact Or.inr ⟨payload, rfl, Or.inr ⟨main, outcome, mainTrace, sealTrace, rest, by simp, hmain,
      hseal, halways⟩⟩
  rcases runs_bind_iff.mp h with ⟨payload, rfl, hafter⟩ |
    ⟨after, probeTrace, rest, rfl, hafter, h⟩
  · exact (((sessionAfter_ensures main cleanup budget).of_runs hafter).2.2 payload rfl).elim
  simp only [elapsed_bind, runs_ask_iff, pure_eq, runs_done_iff] at h
  obtain ⟨elapsed, _, rfl, rfl, rfl⟩ := h
  exact Or.inl ⟨_, rfl, ⟨main, cleanup, mainTrace, sealTrace, alwaysTrace, probeTrace, hmain,
    hseal, halways, hafter, by simp, rfl, rfl, rfl, rfl⟩⟩

theorem mainBlock_unwinds {steps : List BatchStep} {budget : Nat} {trace : Trace}
    {payload : Option String} (h : Runs (mainBlock steps budget) trace (.error payload)) :
    ∃ event ∈ trace, endingPanicked event = true := by
  refine (runs_forEach (fun _ _ _ => True)
    (fun trace => ∃ event ∈ trace, endingPanicked event = true) ?_ [] trivial h).2 payload rfl
  intro index step progress before trace result _ _ hruns
  refine ⟨fun _ _ => trivial, ?_⟩
  rintro payload rfl
  rcases runs_mainStep hruns with ⟨_, hnext, _⟩ | ⟨_, gates, middle, -, rfl, -, -, hrun⟩
  · cases hnext
  · obtain ⟨⟨event, hevent, hpanicked⟩, -⟩ := runStep_unwinds hrun
    exact ⟨event, by simp [hevent], hpanicked⟩

theorem alwaysBlock_unwinds {always : List BatchStep} {budget : Nat} {main : Progress}
    {trace : Trace} {payload : Option String}
    (h : Runs (alwaysBlock always budget main) trace (.error payload)) :
    ∃ event ∈ trace, endingPanicked event = true := by
  refine (runs_forEach (fun _ _ _ => True)
    (fun trace => ∃ event ∈ trace, endingPanicked event = true) ?_ [] trivial h).2 payload rfl
  intro index step progress before trace result _ _ hruns
  refine ⟨fun _ _ => trivial, ?_⟩
  rintro payload rfl
  rcases runs_alwaysStep hruns with ⟨_, hnext, _⟩ | ⟨_, elapsed, middle, -, rfl, -, -, hrun⟩
  · cases hnext
  · obtain ⟨⟨event, hevent, hpanicked⟩, -⟩ := runStep_unwinds hrun
    exact ⟨event, by simp [hevent], hpanicked⟩

theorem completes_of_calm {op : BatchOp} {budget : Nat} {trace : Trace}
    {result : Except (Option String) BatchReport} (h : Runs (run op budget) trace result)
    (hcalm : ∀ event ∈ trace, endingPanicked event = false) :
    ∃ report, result = .ok report ∧ Nonempty (Completes op budget trace report) := by
  have hescape : ∀ front middle back, trace = front ++ middle ++ back →
      ¬ ∃ event ∈ middle, endingPanicked event = true := by
    rintro front middle back rfl ⟨event, hevent, hpanicked⟩
    rw [hcalm event (by simp [hevent])] at hpanicked
    cases hpanicked
  rcases runs_run h with hcompletes | ⟨payload, rfl, hmain |
    ⟨main, outcome, mainTrace, sealTrace, alwaysTrace, rfl, hmain, hseal, halways⟩⟩
  · exact hcompletes
  · exact absurd (mainBlock_unwinds hmain) (hescape [] trace [] (by simp))
  · exact absurd (alwaysBlock_unwinds halways)
      (hescape (mainTrace ++ sealTrace) alwaysTrace [] (by simp))

/-- The outcome a turn adds to its block: this step's, at this position. -/
structure Adds (step : BatchStep) (index : Nat) (before after : List StepOutcome)
    (outcome : StepOutcome) : Prop where
  done : after = before ++ [outcome]
  position : outcome.position = index + 1
  label : outcome.label = step.label

theorem MainTurn.adds {stepsDeadline index : Nat} {step : BatchStep} {progress next : Progress}
    {trace : Trace} (h : MainTurn stepsDeadline index step progress trace next) :
    ∃ outcome, Adds step index progress.done next.done outcome := by
  cases h with
  | stopped why _ => exact ⟨_, rfl, rfl, rfl⟩
  | gated outcome why gates _ _ _ _ => exact ⟨_, rfl, rfl, rfl⟩
  | ran gates middle ranking run outcome _ _ hrun _ _ =>
    have hreturns := runStep_returns hrun
    exact ⟨run.outcome, rfl, hreturns.position, hreturns.label⟩

theorem AlwaysTurn.adds {budget index : Nat} {step : BatchStep} {progress next : Progress}
    {trace : Trace} (h : AlwaysTurn budget index step progress trace next) :
    ∃ outcome, Adds step index progress.done next.done outcome := by
  cases h with
  | withheld seen _ => exact ⟨_, rfl, rfl, rfl⟩
  | late elapsed _ _ why => exact ⟨_, rfl, rfl, rfl⟩
  | ran elapsed middle run _ _ hrun =>
    have hreturns := runStep_returns hrun
    exact ⟨run.outcome, rfl, hreturns.position, hreturns.label⟩

/-- One outcome for each of the first `index` steps, in order. -/
structure Recorded (items : List BatchStep) (index : Nat) (done : List StepOutcome) : Prop where
  length : done.length = index
  position : ∀ (i : Nat) (outcome : StepOutcome), done[i]? = some outcome →
    outcome.position = i + 1
  label : ∀ (i : Nat) (outcome : StepOutcome), done[i]? = some outcome →
    items[i]?.map BatchStep.label = some outcome.label

theorem recorded_nil (items : List BatchStep) : Recorded items 0 [] :=
  ⟨rfl, by simp, by simp⟩

theorem getElem?_concat_cases {α : Type} {front : List α} {last value : α} {i : Nat}
    (h : (front ++ [last])[i]? = some value) :
    front[i]? = some value ∨ i = front.length ∧ value = last := by
  rw [List.getElem?_append] at h
  split at h
  · exact Or.inl h
  · rw [List.getElem?_singleton] at h
    split at h
    · exact Or.inr ⟨by omega, (Option.some.inj h).symm⟩
    · cases h

theorem Recorded.add {items : List BatchStep} {index : Nat} {done after : List StepOutcome}
    {step : BatchStep} {outcome : StepOutcome} (h : Recorded items index done)
    (hitem : items[index]? = some step) (hadds : Adds step index done after outcome) :
    Recorded items (index + 1) after := by
  obtain ⟨rfl, hposition, hlabel⟩ := hadds
  refine ⟨by simp [h.length], ?_, ?_⟩
  · intro i other hother
    rcases getElem?_concat_cases hother with hother | ⟨rfl, rfl⟩
    · exact h.position i other hother
    · rw [hposition, h.length]
  · intro i other hother
    rcases getElem?_concat_cases hother with hother | ⟨rfl, rfl⟩
    · exact h.label i other hother
    · rw [h.length, hitem, hlabel]
      rfl

theorem mainBlock_turns {steps : List BatchStep} {budget : Nat} {trace : Trace} {main : Progress}
    (invariant : Nat → Progress → Trace → Prop)
    (hturn : ∀ index step progress before trace next, steps[index]? = some step →
      invariant index progress before →
      MainTurn (stepsDeadline budget) index step progress trace next →
      invariant (index + 1) next (before ++ trace))
    (hstart : invariant 0 ⟨[], .committed, false, none, []⟩ [])
    (h : Runs (mainBlock steps budget) trace (.ok main)) : invariant steps.length main trace := by
  refine (runs_forEach invariant (fun _ => True) ?_ [] hstart h).1 main rfl
  intro index step progress before trace result hitem hinvariant hruns
  refine ⟨?_, fun _ _ => trivial⟩
  rintro next rfl
  rcases runs_mainStep hruns with ⟨_, hnext, hstep⟩ | ⟨_, _, _, hnext, _⟩
  · obtain rfl := Except.ok.inj hnext
    exact hturn index step progress before trace _ hitem hinvariant hstep
  · cases hnext

theorem alwaysBlock_turns {always : List BatchStep} {budget : Nat} {trace : Trace}
    {main cleanup : Progress} (invariant : Nat → Progress → Trace → Prop)
    (hturn : ∀ index step progress before trace next, always[index]? = some step →
      invariant index progress before → AlwaysTurn budget index step progress trace next →
      invariant (index + 1) next (before ++ trace))
    (before : Trace) (hstart : invariant 0 { main with done := [] } before)
    (h : Runs (alwaysBlock always budget main) trace (.ok cleanup)) :
    invariant always.length cleanup (before ++ trace) := by
  refine (runs_forEach invariant (fun _ => True) ?_ before hstart h).1 cleanup rfl
  intro index step progress before trace result hitem hinvariant hruns
  refine ⟨?_, fun _ _ => trivial⟩
  rintro next rfl
  rcases runs_alwaysStep hruns with ⟨_, hnext, hstep⟩ | ⟨_, _, _, hnext, _⟩
  · obtain rfl := Except.ok.inj hnext
    exact hturn index step progress before trace _ hitem hinvariant hstep
  · cases hnext

theorem mainBlock_recorded {steps : List BatchStep} {budget : Nat} {trace : Trace}
    {main : Progress} (h : Runs (mainBlock steps budget) trace (.ok main)) :
    Recorded steps steps.length main.done := by
  refine mainBlock_turns (fun index progress _ => Recorded steps index progress.done) ?_
    (recorded_nil steps) h
  intro index step progress before trace next hitem hrecorded hturn
  obtain ⟨outcome, hadds⟩ := hturn.adds
  exact hrecorded.add hitem hadds

theorem alwaysBlock_recorded {always : List BatchStep} {budget : Nat} {trace : Trace}
    {main cleanup : Progress} (h : Runs (alwaysBlock always budget main) trace (.ok cleanup)) :
    Recorded always always.length cleanup.done := by
  refine alwaysBlock_turns (fun index progress _ => Recorded always index progress.done) ?_ []
    (recorded_nil always) h
  intro index step progress before trace next hitem hrecorded hturn
  obtain ⟨outcome, hadds⟩ := hturn.adds
  exact hrecorded.add hitem hadds

end WindbgMcp.Batch
