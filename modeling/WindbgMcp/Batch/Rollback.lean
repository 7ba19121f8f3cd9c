import WindbgMcp.Batch.Captures
import WindbgMcp.Batch.Certification

/-! The rollback is reached: however the main block ended, every `always` step has
its turn, and only lateness, an unresolved reference or a lost target keeps its
action from the engine. -/
namespace WindbgMcp.Batch

open Library Program

/-- The positions of the `always` steps whose actions a trace puts to the engine. -/
def alwaysActions (trace : Trace) : List Nat :=
  (actions trace).filterMap fun issued => if issued.1 = .always then some issued.2 else none

def BatchStep.Unbound (step : BatchStep) (names : List String) : Prop :=
  ∃ name ∈ step.references, name ∉ names

/-- How the turn of the `always` step at `index` may end, with `names` bound.
`unresolved` says which steps may be skipped for their references. -/
inductive Reached (unresolved : BatchStep → List String → Prop) (budget : Nat)
    (names : List String) (trace : Trace) (index : Nat) (step : BatchStep)
    (outcome : StepOutcome) : Prop where
  | issued (bound : Bindings) (action : StepAction) (checks : List Check)
      (hnames : bound.Names names) (hok : step.substituted bound.get = .ok (action, checks))
      (hran : outcome.result.isSkipped = false)
      (honce : (actions trace).count (.always, index + 1) = 1)
      (hissued : ∀ event ∈ trace, event.query.action? = some (.always, index + 1) →
        ∃ ms, event.query = actionQuery .always (index + 1) (action.call ms))
  | skipped (hskipped : outcome.result.isSkipped = true)
      (hnone : (.always, index + 1) ∉ actions trace)
      (hwhy : (∃ elapsed : Nat, budget ≤ elapsed ∧
          ⟨⟨.gate .always (index + 1), .elapsed⟩, elapsed⟩ ∈ trace) ∨
        unresolved step names ∨ ∃ position ≤ index, (.always, position) ∈ losses trace)

theorem mem_actions_iff {trace : Trace} {issued : Block × Nat} :
    issued ∈ actions trace ↔ ∃ event ∈ trace, event.query.action? = some issued :=
  List.mem_filterMap

theorem Reached.later {unresolved : BatchStep → List String → Prop} {budget index : Nat}
    {names : List String} {front back : Trace} {step : BatchStep} {outcome : StepOutcome}
    (h : Reached unresolved budget names front index step outcome)
    (hback : ∀ event ∈ back, event.query.action? ≠ some (.always, index + 1)) :
    Reached unresolved budget names (front ++ back) index step outcome := by
  have hnone : (.always, index + 1) ∉ actions back := by
    rw [mem_actions_iff]
    rintro ⟨event, hevent, hissued⟩
    exact hback event hevent hissued
  cases h with
  | issued bound action checks hnames hok hran honce hissued =>
    refine .issued bound action checks hnames hok hran ?_ ?_
    · rw [actions_append, List.count_append, honce, List.count_eq_zero_of_not_mem hnone]
    · intro event hevent haction
      rcases List.mem_append.mp hevent with hevent | hevent
      · exact hissued event hevent haction
      · exact absurd haction (hback event hevent)
  | skipped hskipped hfront hwhy =>
    refine .skipped hskipped ?_ ?_
    · rw [actions_append, List.mem_append]
      rintro (hmem | hmem)
      · exact hfront hmem
      · exact hnone hmem
    · rcases hwhy with ⟨elapsed, hlate, hgate⟩ | hwhy | ⟨position, hle, hlost⟩
      · exact Or.inl ⟨elapsed, hlate, List.mem_append_left _ hgate⟩
      · exact Or.inr (Or.inl hwhy)
      · refine Or.inr (Or.inr ⟨position, hle, ?_⟩)
        rw [losses_append]
        exact List.mem_append_left _ hlost

def BatchStep.Unresolved (step : BatchStep) (names : List String) : Prop :=
  step.wellFormed = false ∨ step.Unbound names

theorem unresolved_of_not_isOk {step : BatchStep} {bound : Bindings} {names : List String}
    (hnames : bound.Names names) (h : ¬ (step.substituted bound.get).isOk) :
    step.Unresolved names := by
  rw [substituted_isOk_iff, not_and] at h
  by_cases hformed : step.wellFormed = true
  · right
    have hunbound := h hformed
    push Not at hunbound
    obtain ⟨name, hname, hnone⟩ := hunbound
    exact ⟨name, hname, fun hmem => hnone ((hnames name).mpr hmem)⟩
  · exact Or.inl (eq_false_of_ne_true hformed)

/-- What the cleanup has reached, with the names that the main block left bound. -/
structure CleanupReached (always : List BatchStep) (budget : Nat) (names : List String)
    (index : Nat) (progress : Progress) (trace : Trace) : Prop where
  recorded : Recorded always index progress.done
  bound : progress.bound.Names (names ++ captured always progress.done)
  reach : ∀ event ∈ trace, ∀ position, event.query.step? = some (.always, position) →
    position ≤ index
  ordered : (alwaysActions trace).Pairwise (· < ·)
  lost : progress.unverified.isSome → ∃ position ≤ index, (.always, position) ∈ losses trace
  reached : ∀ (i : Nat) (step : BatchStep) (outcome : StepOutcome),
    always[i]? = some step → progress.done[i]? = some outcome →
    Reached BatchStep.Unresolved budget (names ++ captured always (progress.done.take i)) trace i
      step outcome

section

variable {always : List BatchStep} {budget index : Nat} {names : List String}
  {progress next : Progress} {before trace : Trace} {step : BatchStep}

theorem mem_alwaysActions_iff {position : Nat} :
    position ∈ alwaysActions trace ↔ (.always, position) ∈ actions trace := by
  simp only [alwaysActions, List.mem_filterMap, Option.ite_none_right_eq_some, Option.some.injEq]
  constructor
  · rintro ⟨⟨block, position⟩, hmem, rfl, rfl⟩
    exact hmem
  · intro hmem
    exact ⟨_, hmem, rfl, rfl⟩

theorem alwaysActions_append (front back : Trace) :
    alwaysActions (front ++ back) = alwaysActions front ++ alwaysActions back := by
  rw [alwaysActions, actions_append, List.filterMap_append]
  rfl

theorem alwaysActions_eq_nil
    (h : ∀ event ∈ trace, ∀ position, event.query.action? ≠ some (.always, position)) :
    alwaysActions trace = [] := by
  refine List.eq_nil_iff_forall_not_mem.mpr fun position hmem => ?_
  rw [mem_alwaysActions_iff, mem_actions_iff] at hmem
  obtain ⟨event, hevent, hissued⟩ := hmem
  exact h event hevent position hissued

theorem CleanupReached.not_issued (h : CleanupReached always budget names index progress before) :
    (.always, index + 1) ∉ actions before := by
  rw [mem_actions_iff]
  rintro ⟨event, hevent, hissued⟩
  have hle := h.reach event hevent (index + 1) (step?_of_action? hissued)
  omega

theorem CleanupReached.reached_now
    (h : CleanupReached always budget names index progress before)
    (hturn : AlwaysTurn budget index step progress trace next) :
    ∃ outcome, next.done = progress.done ++ [outcome] ∧
      Reached BatchStep.Unresolved budget (names ++ captured always progress.done)
        (before ++ trace) index step outcome := by
  have hbefore := h.not_issued
  cases hturn with
  | withheld seen hseen =>
    refine ⟨_, rfl, .skipped rfl ?_ ?_⟩
    · rw [List.append_nil]
      exact hbefore
    · rw [List.append_nil]
      exact Or.inr (Or.inr (h.lost (by rw [hseen]; rfl)))
  | late elapsed hkept hlate why =>
    refine ⟨_, rfl, .skipped rfl ?_ (Or.inl ⟨elapsed, hlate, by simp⟩)⟩
    rw [actions_append, List.mem_append]
    rintro (hmem | hmem)
    · exact hbefore hmem
    · cases hmem
  | ran elapsed middle run hkept hintime hrun =>
    have hreturns := runStep_returns hrun
    have hskipped := hreturns.skipped
    have hactions : actions (⟨⟨.gate .always (index + 1), .elapsed⟩, elapsed⟩ :: middle) =
        if (step.substituted progress.bound.get).isOk then [(.always, index + 1)] else [] :=
      hreturns.trace.actions
    refine ⟨run.outcome, rfl, ?_⟩
    by_cases hok : (step.substituted progress.bound.get).isOk = true
    · rw [if_pos hok] at hactions
      obtain ⟨⟨action, checks⟩, hresolved⟩ : ∃ resolved,
          step.substituted progress.bound.get = .ok resolved := by
        cases hresolved : step.substituted progress.bound.get with
        | error why => simp [hresolved] at hok
        | ok resolved => exact ⟨resolved, rfl⟩
      refine .issued progress.bound action checks h.bound hresolved (by rw [hskipped, hok]; rfl)
        ?_ ?_
      · rw [actions_append, List.count_append, List.count_eq_zero_of_not_mem hbefore, hactions]
        simp
      · intro event hevent hissued
        simp only [List.mem_append, List.mem_cons] at hevent
        rcases hevent with hevent | rfl | hevent
        · exact absurd (mem_actions_iff.mpr ⟨event, hevent, hissued⟩) hbefore
        · cases hissued
        · obtain ⟨action', checks', ms, hresolved', hquery⟩ := hreturns.trace.issues event hevent
            (by rw [hissued]; rfl)
          rw [hresolved, Except.ok.injEq, Prod.mk.injEq] at hresolved'
          obtain ⟨rfl, -⟩ := hresolved'
          exact ⟨ms, hquery⟩
    · refine .skipped (by rw [hskipped, eq_false_of_ne_true hok]; rfl) ?_
        (Or.inr (Or.inl (unresolved_of_not_isOk h.bound hok)))
      rw [if_neg hok] at hactions
      rw [actions_append, hactions, List.append_nil]
      exact hbefore

theorem AlwaysTurn.position_eq (h : AlwaysTurn budget index step progress trace next)
    {event : Happening} (hevent : event ∈ trace) {position : Nat}
    (hstep : event.query.step? = some (.always, position)) : position = index + 1 := by
  rw [h.asks event hevent] at hstep
  exact (Prod.mk.inj (Option.some.inj hstep)).2.symm

theorem AlwaysTurn.alwaysActions_eq (h : AlwaysTurn budget index step progress trace next) :
    alwaysActions trace = [] ∨ alwaysActions trace = [index + 1] := by
  cases h with
  | withheld seen hseen => exact Or.inl rfl
  | late elapsed hkept hlate why => exact Or.inl rfl
  | ran elapsed middle run hkept hintime hrun =>
    have hactions : actions (⟨⟨.gate .always (index + 1), .elapsed⟩, elapsed⟩ :: middle) =
        if (step.substituted progress.bound.get).isOk then [(.always, index + 1)] else [] :=
      (runStep_returns hrun).trace.actions
    rw [alwaysActions, hactions]
    split <;> simp

theorem CleanupReached.ordered_turn (h : CleanupReached always budget names index progress before)
    (hturn : AlwaysTurn budget index step progress trace next) :
    (alwaysActions (before ++ trace)).Pairwise (· < ·) := by
  rw [alwaysActions_append, List.pairwise_append]
  refine ⟨h.ordered, ?_, ?_⟩
  · rcases hturn.alwaysActions_eq with hone | hone <;> simp [hone]
  · intro first hfirst second hsecond
    rw [mem_alwaysActions_iff, mem_actions_iff] at hfirst hsecond
    obtain ⟨event, hevent, hissued⟩ := hfirst
    obtain ⟨later, hlater, hissued'⟩ := hsecond
    have hle := h.reach event hevent first (step?_of_action? hissued)
    have heq := hturn.position_eq hlater (step?_of_action? hissued')
    omega

theorem CleanupReached.lost_turn (h : CleanupReached always budget names index progress before)
    (hturn : AlwaysTurn budget index step progress trace next) (hsome : next.unverified.isSome) :
    ∃ position ≤ index + 1, (.always, position) ∈ losses (before ++ trace) := by
  rw [losses_append]
  cases hturn with
  | withheld seen hseen =>
    obtain ⟨position, hle, hlost⟩ := h.lost (by rw [hseen]; rfl)
    exact ⟨position, by omega, List.mem_append_left _ hlost⟩
  | late elapsed hkept hlate why =>
    change progress.unverified.isSome at hsome
    rw [hkept] at hsome
    cases hsome
  | ran elapsed middle run hkept hintime hrun =>
    rw [record_unverified_isSome, hkept] at hsome
    have hlost : run.reading ≠ .same := by simpa using hsome
    have hlosses := (runStep_returns hrun).trace.losses
    rw [if_neg hlost] at hlosses
    refine ⟨index + 1, Nat.le_refl _, List.mem_append_right _ ?_⟩
    change _ ∈ losses middle
    simp [hlosses]

theorem CleanupReached.turn (h : CleanupReached always budget names index progress before)
    (hitem : always[index]? = some step)
    (hturn : AlwaysTurn budget index step progress trace next) :
    CleanupReached always budget names (index + 1) next (before ++ trace) := by
  obtain ⟨outcome, hadds⟩ := hturn.adds
  have hitem' := hitem
  rw [← h.recorded.length] at hitem'
  refine ⟨h.recorded.add hitem hadds, ?_, ?_, h.ordered_turn hturn, h.lost_turn hturn, ?_⟩
  · cases hturn with
    | withheld seen hseen => exact h.bound.skip hitem'
    | late elapsed hkept hlate why => exact h.bound.skip hitem'
    | ran elapsed middle run hkept hintime hrun =>
      exact h.bound.record hitem' (runStep_returns hrun).binds
  · intro event hevent position hstep
    rcases List.mem_append.mp hevent with hevent | hevent
    · have hle := h.reach event hevent position hstep
      omega
    · exact Nat.le_of_eq (hturn.position_eq hevent hstep)
  · intro i other outcome' hother houtcome
    obtain ⟨now, hdone, hnow⟩ := h.reached_now hturn
    rw [hdone] at houtcome ⊢
    rcases getElem?_concat_cases houtcome with houtcome | ⟨rfl, rfl⟩
    · have hlt := (List.getElem?_eq_some_iff.mp houtcome).1
      rw [List.take_append_of_le_length (Nat.le_of_lt hlt)]
      refine (h.reached i other outcome' hother houtcome).later fun event hevent hissued => ?_
      have heq := hturn.position_eq hevent (step?_of_action? hissued)
      rw [h.recorded.length] at hlt
      omega
    · rw [List.take_append_of_le_length (Nat.le_refl _), List.take_length]
      rw [h.recorded.length] at hother ⊢
      obtain rfl := Option.some.inj (hitem.symm.trans hother)
      exact hnow

theorem alwaysBlock_reached {main cleanup : Progress} {front : Trace}
    (hbound : main.bound.Names names) (hkept : main.unverified = none)
    (hfront : ∀ event ∈ front, ∀ position, event.query.step? ≠ some (.always, position))
    (h : Runs (alwaysBlock always budget main) trace (.ok cleanup)) :
    CleanupReached always budget names always.length cleanup (front ++ trace) := by
  refine alwaysBlock_turns (CleanupReached always budget names) ?_ front ?_ h
  · intro index step progress before trace next hitem hreached hturn
    exact hreached.turn hitem hturn
  · refine ⟨recorded_nil always, ?_, ?_, ?_, by simp [hkept], by simp⟩
    · simpa [captured] using hbound
    · exact fun event hevent position hstep => absurd hstep (hfront event hevent position)
    · rw [alwaysActions_eq_nil fun event hevent position hissued =>
        hfront event hevent position (step?_of_action? hissued)]
      exact .nil

end

/-- What becomes of the rollback when the main block kept its target. -/
structure RollbackReached (unresolved : BatchStep → List String → Prop) (op : BatchOp)
    (budget : Nat) (trace : Trace) (report : BatchReport) : Prop where
  visits : Recorded op.always op.always.length report.always
  ordered : (alwaysActions trace).Pairwise (· < ·)
  reached : ∀ (i : Nat) (step : BatchStep) (outcome : StepOutcome),
    op.always[i]? = some step → report.always[i]? = some outcome →
    Reached unresolved budget
      (captured op.steps report.steps ++ captured op.always (report.always.take i)) trace i step
      outcome

section

variable {op : BatchOp} {budget : Nat} {trace : Trace} {report : BatchReport}

theorem Completes.reached (h : Completes op budget trace report)
    (hkept : ∀ position, (.steps, position) ∉ losses trace) :
    RollbackReached BatchStep.Unresolved op budget trace report := by
  obtain ⟨main, cleanup, mainTrace, sealTrace, alwaysTrace, probeTrace, mainRuns, sealRuns,
    alwaysRuns, probeRuns, rfl, hsteps, halways, -, -⟩ := h
  have hwatched := (mainBlock_watched mainRuns).1 main rfl
  have hheld : main.unverified = none := by
    rw [← Option.not_isSome_iff_eq_none, hwatched.lost_iff, not_not]
    refine List.eq_nil_iff_forall_not_mem.mpr fun ⟨block, position⟩ hloss => ?_
    obtain rfl : block = .steps := hwatched.blocks _ hloss
    exact hkept position (by simp [hloss])
  have hfront : ∀ event ∈ mainTrace ++ sealTrace, ∀ position,
      event.query.step? ≠ some (.always, position) := by
    intro event hevent position hstep
    rcases List.mem_append.mp hevent with hevent | hevent
    · obtain ⟨other, hother⟩ := mainBlock_asks mainRuns event hevent
      rw [hother] at hstep
      cases hstep
    · rw [((sealRollback_ensures main).of_runs sealRuns).1 event hevent] at hstep
      cases hstep
  have hback : ∀ event ∈ probeTrace ++ [⟨⟨.report, .elapsed⟩, report.elapsed⟩], ∀ position,
      event.query.action? ≠ some (.always, position) := by
    intro event hevent position hissued
    rcases List.mem_append.mp hevent with hevent | hevent
    · have hsite := (((sessionAfter_ensures main cleanup budget).of_runs probeRuns).1 event hevent).1
      rw [Query.action?, hsite] at hissued
      cases hissued
    · rw [List.mem_singleton.mp hevent] at hissued
      cases hissued
  have hreached := alwaysBlock_reached (mainBlock_names mainRuns) hheld hfront alwaysRuns
  constructor
  · rw [halways]
    exact hreached.recorded
  · rw [alwaysActions_append, alwaysActions_eq_nil hback, List.append_nil]
    exact hreached.ordered
  · intro i step outcome hitem houtcome
    rw [hsteps]
    rw [halways] at houtcome ⊢
    exact (hreached.reached i step outcome hitem houtcome).later
      fun event hevent => hback event hevent (i + 1)

theorem RunWatched.rollback_complete_iff (h : RunWatched trace report) :
    report.rollback = .complete ↔
      report.always ≠ [] ∧ (∀ outcome ∈ report.always, outcome.ok = true) ∧
        ∀ position, (.always, position) ∉ losses trace := by
  have hcleanup : report.unverified.any (·.duringCleanup) = false ↔
      ∀ position, (.always, position) ∉ losses trace := by
    rw [← Bool.not_eq_true, h.cleanup_iff]
    constructor
    · exact fun hnone position hloss => hnone ⟨_, hloss, rfl⟩
    · rintro hnone ⟨⟨block, position⟩, hloss, rfl⟩
      exact hnone position hloss
  have hcomplete : report.rollbackComplete = true ↔
      (∀ outcome ∈ report.always, outcome.ok = true) ∧
        ∀ position, (.always, position) ∉ losses trace := by
    rw [← hcleanup, BatchReport.rollbackComplete, Bool.and_eq_true, List.all_eq_true,
      Bool.not_eq_true']
  rw [← hcomplete, BatchReport.rollback]
  by_cases hempty : report.always = []
  · simp [hempty]
  · rw [if_neg (by simpa using hempty)]
    by_cases hall : report.rollbackComplete = true
    · simp [hall, hempty]
    · rw [if_neg hall]
      simp only [hall]
      split <;> simp

end

/-- Whatever the debugger does, as long as the main block keeps its target the
`always` steps are visited in order and each action is issued once, unless the step
is late, does not resolve, or follows a cleanup step that lost the target. -/
theorem rollback_reached {σ : Type} (host : σ → (asked : Query) → asked.Answer × σ) (state : σ)
    (op : BatchOp) (budget : Nat)
    (hcalm : ∀ event ∈ (execute host state (run op budget)).trace, endingPanicked event = false) :
    ∃ report, (execute host state (run op budget)).result = .ok report ∧
      ((∀ position, (.steps, position) ∉ losses (execute host state (run op budget)).trace) →
        RollbackReached BatchStep.Unresolved op budget (execute host state (run op budget)).trace
          report) ∧
      (report.rollback = .complete ↔
        op.always ≠ [] ∧ (∀ outcome ∈ report.always, outcome.ok = true) ∧
          ∀ position, (.always, position) ∉ losses (execute host state (run op budget)).trace) := by
  obtain ⟨report, hresult, ⟨hcompletes⟩⟩ :=
    completes_of_calm (runs_execute host state (run op budget)) hcalm
  have hsupplied : report.always = [] ↔ op.always = [] := by
    rw [hcompletes.always_eq, ← List.length_eq_zero_iff,
      (alwaysBlock_recorded hcompletes.alwaysRuns).length, List.length_eq_zero_iff]
  refine ⟨report, hresult, hcompletes.reached, ?_⟩
  rw [Ne, ← hsupplied]
  exact hcompletes.watched.rollback_complete_iff

/-- A debugger that answers at once and whose `!fault` panics. -/
def faulting (state : Unit) : (asked : Query) → asked.Answer × Unit
  | ⟨_, .engine (.command "!fault" _)⟩ => (.panicked none, state)
  | ⟨_, .engine _⟩ => (.returned (.ok ⟨"", false, false⟩), state)
  | ⟨_, .hasTarget⟩ => (.returned (some true), state)
  | ⟨_, .replaced⟩ => (.returned .same, state)
  | ⟨_, .running⟩ => (.returned (some false), state)
  | ⟨_, .elapsed⟩ => ((0 : Nat), state)
  | ⟨_, .abandoned⟩ => (false, state)
  | ⟨_, .interrupted⟩ => (false, state)
  | ⟨_, .sealing _⟩ => (false, state)

def faultAfterPatch : BatchOp where
  steps := [⟨none, .command "eb nt!flag 1", [], none⟩, ⟨none, .command "!fault", [], none⟩]
  always := [⟨none, .command "eb nt!flag 0", [], none⟩]

theorem faultAfterPatch_reached :
    ∃ report, (execute faulting () (run faultAfterPatch 2000000000)).result = .ok report ∧
      RollbackReached BatchStep.Unresolved faultAfterPatch 2000000000
        (execute faulting () (run faultAfterPatch 2000000000)).trace report := by
  have hcalm : ∀ event ∈ (execute faulting () (run faultAfterPatch 2000000000)).trace,
      endingPanicked event = false := by
    decide +kernel
  have hlosses : losses (execute faulting () (run faultAfterPatch 2000000000)).trace = [] := by
    decide +kernel
  obtain ⟨report, hresult, hreached, -⟩ :=
    rollback_reached faulting () faultAfterPatch 2000000000 hcalm
  refine ⟨report, hresult, hreached fun position hloss => ?_⟩
  rw [hlosses] at hloss
  cases hloss

def unclosedRestore : BatchOp where
  steps := []
  always := [⟨none, .command "eb nt!flag \x7b\x7bold", [], none⟩]

def saysLate (budget : Nat) : Happening → Bool
  | ⟨⟨_, .elapsed⟩, elapsed⟩ => budget ≤ elapsed
  | _ => false

/-- It is skipped in time, with the target kept and no name to resolve. -/
theorem unclosedRestore_skipped :
    (∀ event ∈ (execute faulting () (run unclosedRestore 2000000000)).trace,
      endingPanicked event = false) ∧
    losses (execute faulting () (run unclosedRestore 2000000000)).trace = [] ∧
    ∃ report, (execute faulting () (run unclosedRestore 2000000000)).result = .ok report ∧
      ¬ RollbackReached BatchStep.Unbound unclosedRestore 2000000000
        (execute faulting () (run unclosedRestore 2000000000)).trace report := by
  have hcalm : ∀ event ∈ (execute faulting () (run unclosedRestore 2000000000)).trace,
      endingPanicked event = false := by
    decide +kernel
  have hlosses : losses (execute faulting () (run unclosedRestore 2000000000)).trace = [] := by
    decide +kernel
  have hactions : actions (execute faulting () (run unclosedRestore 2000000000)).trace = [] := by
    decide +kernel
  have hintime : ∀ event ∈ (execute faulting () (run unclosedRestore 2000000000)).trace,
      saysLate 2000000000 event = false := by
    decide +kernel
  have hnames : BatchStep.references ⟨none, .command "eb nt!flag \x7b\x7bold", [], none⟩ = [] := by
    decide +kernel
  obtain ⟨report, hresult, -⟩ := completes_of_calm (runs_execute faulting () _) hcalm
  refine ⟨hcalm, hlosses, report, hresult, fun hreached => ?_⟩
  obtain ⟨outcome, houtcome⟩ : ∃ outcome, report.always[0]? = some outcome :=
    ⟨_, List.getElem?_eq_getElem (by rw [hreached.visits.length]; decide)⟩
  cases hreached.reached 0 _ outcome rfl houtcome with
  | issued bound action checks hnames hok hran honce hissued =>
    rw [hactions] at honce
    cases honce
  | skipped hskipped hnone hwhy =>
    rcases hwhy with ⟨elapsed, hlate, hgate⟩ | ⟨name, hname, -⟩ | ⟨position, -, hlost⟩
    · have hnot := hintime _ hgate
      rw [saysLate, decide_eq_true hlate] at hnot
      cases hnot
    · rw [hnames] at hname
      cases hname
    · rw [hlosses] at hlost
      cases hlost

end WindbgMcp.Batch
