import WindbgMcp.Batch.Sealing

/-! A panic out of the debugger is an error to the executor, for every call but one: a
panic of `has_target` ends the batch as it stands. -/
namespace WindbgMcp.Batch

open Library Program

def calm : (asked : Query) → asked.Answer → asked.Answer
  | ⟨_, .engine _⟩, .panicked why => .returned (.error ⟨panicMessage why, none⟩)
  | ⟨_, .replaced⟩, .panicked why => .returned (.uncertain (panicMessage why))
  | ⟨_, .running⟩, .panicked _ => .returned none
  | ⟨_, .hasTarget⟩, .panicked _ => .returned none
  | _, answer => answer

def calmEvent (event : Happening) : Happening := ⟨event.query, calm event.query event.answer⟩

def calmed {σ : Type} (host : σ → (asked : Query) → asked.Answer × σ) (state : σ)
    (asked : Query) : asked.Answer × σ :=
  (calm asked (host state asked).1, (host state asked).2)

/-- Going on from a panic is going on from an error, except behind `has_target`, whose
panic is let through. -/
def Contained {α : Type} : Executor α → Prop
  | .done _ => True
  | .unwind _ => False
  | .ask asked next => ∀ answer : asked.Answer,
    if endingPanicked ⟨asked, answer⟩ then ∃ payload, next answer = .unwind payload
    else next (calm asked answer) = next answer ∧ Contained (next answer)

section Contained

variable {α β : Type}

theorem contained_done (value : α) : Contained (pure value : Executor α) := trivial

theorem contained_ask {asked : Query} {next : asked.Answer → Executor α}
    (hasked : asked.request ≠ .hasTarget)
    (hcalm : ∀ answer, next (calm asked answer) = next answer)
    (hnext : ∀ answer, Contained (next answer)) : Contained (Program.ask asked next) := by
  intro answer
  have hreturned : endingPanicked ⟨asked, answer⟩ = false := by
    obtain ⟨site, request⟩ := asked
    cases request with
    | hasTarget => exact absurd rfl hasked
    | _ => rfl
  rw [hreturned]
  exact ⟨hcalm answer, hnext answer⟩

theorem Contained.bind {program : Executor α} {next : α → Executor β} (h : Contained program)
    (hnext : ∀ value, Contained (next value)) : Contained (program >>= next) := by
  induction program with
  | done value => exact hnext value
  | unwind payload => exact h.elim
  | ask asked continuation ih =>
    intro answer
    have hanswer := h answer
    by_cases hpanicked : endingPanicked ⟨asked, answer⟩ = true
    · rw [if_pos hpanicked] at hanswer ⊢
      obtain ⟨payload, hpayload⟩ := hanswer
      refine ⟨payload, ?_⟩
      change (continuation answer >>= next) = _
      rw [hpayload]
      rfl
    · rw [if_neg hpanicked] at hanswer ⊢
      obtain ⟨hcalm, hcontained⟩ := hanswer
      refine ⟨?_, ih answer hcontained⟩
      change (continuation (calm asked answer) >>= next) = (continuation answer >>= next)
      rw [hcalm]

theorem Contained.forEach {σ ι : Type} {body : Nat → ι → σ → Executor σ}
    (hbody : ∀ index item state, Contained (body index item state)) (index : Nat)
    (items : List ι) (state : σ) : Contained (Program.forEach body index items state) := by
  induction items generalizing index state with
  | nil => exact contained_done state
  | cons item items ih => exact (hbody index item state).bind fun next => ih (index + 1) next

theorem Contained.unwinds_iff {program : Executor α} (h : Contained program) {trace : Trace}
    {result : Except (Option String) α} (hruns : Runs program trace result) :
    (∃ payload, result = .error payload) ↔ ∃ event ∈ trace, endingPanicked event = true := by
  induction hruns with
  | done value => simp
  | unwind payload => exact h.elim
  | @ask asked next rest result answer hrest ih =>
    have hanswer := h answer
    by_cases hpanicked : endingPanicked ⟨asked, answer⟩ = true
    · rw [if_pos hpanicked] at hanswer
      obtain ⟨payload, hpayload⟩ := hanswer
      rw [hpayload] at hrest
      obtain ⟨-, rfl⟩ := runs_unwind_iff.mp hrest
      exact ⟨fun _ => ⟨_, List.mem_cons_self, hpanicked⟩, fun _ => ⟨payload, rfl⟩⟩
    · rw [if_neg hpanicked] at hanswer
      rw [ih hanswer.2, List.exists_mem_cons_iff]
      exact ⟨Or.inr, fun h => h.resolve_left hpanicked⟩

theorem Contained.execute_calmed {program : Executor α} (h : Contained program) {σ : Type}
    (host : σ → (asked : Query) → asked.Answer × σ) (state : σ)
    (hcalm : ∀ event ∈ (execute host state program).trace, endingPanicked event = false) :
    execute (calmed host) state program =
      { execute host state program with
        trace := (execute host state program).trace.map calmEvent } := by
  induction program generalizing state with
  | done value => rfl
  | unwind payload => exact h.elim
  | ask asked next ih =>
    have hanswer := h (host state asked).1
    have hreturned := hcalm ⟨asked, (host state asked).1⟩ List.mem_cons_self
    rw [hreturned] at hanswer
    have hrest := ih (host state asked).1 hanswer.2 (host state asked).2 fun event hevent =>
      hcalm event (List.mem_cons_of_mem _ hevent)
    simp only [execute, calmed, hanswer.1, List.map_cons] at hrest ⊢
    rw [hrest]
    rfl

end Contained

/-! ## The executor -/

theorem contained_elapsed {α : Type} (site : Site) {next : Nat → Executor α}
    (hnext : ∀ elapsed, Contained (next elapsed)) :
    Contained (.ask ⟨site, .elapsed⟩ next) :=
  @contained_ask _ ⟨site, .elapsed⟩ next (by simp) (fun _ => rfl) hnext

theorem contained_engine {α : Type} (site : Site) (call : EngineCall)
    {next : Except Failed Ran → Executor α} (hnext : ∀ ran, Contained (next ran)) :
    Contained (guarded (Debuggee.engine site call) >>= next) := by
  rw [guarded_engine_bind]
  apply contained_ask (by simp)
  · intro answer
    cases answer with
    | returned value => rfl
    | panicked why => rfl
  · exact fun answer => hnext answer.settled

theorem contained_held {α : Type} (site : Site) {next : Held → Executor α}
    (hnext : ∀ reading, Contained (next reading)) : Contained (held site >>= next) := by
  rw [held_bind]
  apply contained_ask (by simp)
  · intro answer
    cases answer with
    | returned value => rfl
    | panicked why => rfl
  · exact fun answer => hnext answer.read

theorem contained_evalValue (site : Site) (expr : String) (deadline : Nat) (cutShort : Bool) :
    Contained (evalValue site expr deadline cutShort) := by
  simp only [evalValue, elapsed_bind]
  refine contained_elapsed site fun elapsed => ?_
  split
  · exact contained_done _
  refine contained_elapsed site fun again => contained_engine site _ fun ran => ?_
  split
  · exact contained_done _
  split
  · exact contained_done _
  · exact contained_done _

theorem contained_evaluate (site : Site) (check : Check) (output : String) (deadline : Nat)
    (cutShort : Bool) : Contained (evaluate site check output deadline cutShort) := by
  cases check with
  | contains text => exact contained_done _
  | notContains text => exact contained_done _
  | eval expr equals =>
    refine (contained_evalValue site expr deadline cutShort).bind fun left => ?_
    obtain ⟨left, cutShort⟩ := left
    cases left with
    | error why => exact contained_done _
    | ok left =>
      refine (contained_evalValue site equals deadline cutShort).bind fun right => ?_
      obtain ⟨right, cutShort⟩ := right
      cases right with
      | error why => exact contained_done _
      | ok right => exact contained_done _

theorem contained_runChecks (site : Site) (deadline : Nat) (reading : Held) (targetGone : Bool)
    (output : String) (checks : List Check) (cutShort : Bool) :
    Contained (runChecks site deadline reading targetGone output checks cutShort) := by
  induction checks generalizing cutShort with
  | nil => exact contained_done _
  | cons check checks ih =>
    simp only [runChecks, elapsed_bind]
    split
    · exact contained_done _
    split
    · exact contained_done _
    refine contained_elapsed site fun elapsed => ?_
    split
    · exact contained_done _
    refine (contained_evaluate site check output deadline cutShort).bind fun verdict => ?_
    obtain ⟨verdict, cutShort⟩ := verdict
    cases verdict with
    | ok value => exact ih cutShort
    | error why =>
      cases why with
      | unmet why => exact contained_done _
      | expired why => exact contained_done _

theorem contained_finishStep (block : Block) (step : BatchStep) (position deadline : Nat)
    (bound : Bindings) (alreadyGone : Bool) (action : StepAction) (checks : List Check)
    (reading : Held) (ran : Except Failed Ran) :
    Contained (finishStep block step position deadline bound alreadyGone action checks reading
      ran) := by
  cases ran with
  | error why =>
    simp only [finishStep, finishRefused, hasTarget_bind]
    split
    · exact contained_done _
    · intro answer
      cases answer with
      | returned holding => exact ⟨rfl, contained_done _⟩
      | panicked why => exact ⟨why, rfl⟩
  | ok ran => exact (contained_runChecks _ _ _ _ _ _ _).bind fun verdict => contained_done _

theorem contained_runStep (block : Block) (step : BatchStep) (position deadline : Nat)
    (bound : Bindings) (alreadyGone : Bool) :
    Contained (runStep block step position deadline bound alreadyGone) := by
  simp only [runStep, elapsed_bind]
  refine contained_elapsed _ fun elapsed => ?_
  split
  · exact contained_done _
  refine contained_engine _ _ fun ran => contained_held _ fun reading => ?_
  have hseal : Contained (sealIfLost (.reading block position) reading) := by
    simp only [sealIfLost, sealing_bind]
    split
    · exact contained_done _
    · exact contained_ask (by simp) (fun _ => rfl) fun _ => contained_done _
  exact hseal.bind fun _ => contained_finishStep _ _ _ _ _ _ _ _ _ _

theorem contained_rankOutcome (position stepsDeadline : Nat) (done : StepOutcome)
    (reading : Held) : Contained (rankOutcome position stepsDeadline done reading) := by
  simp only [rankOutcome, abandoned_bind, elapsed_bind]
  split
  · exact contained_done _
  · exact contained_done _
  split
  · exact contained_done _
  split
  · exact contained_ask (by simp) (fun _ => rfl) fun _ => contained_done _
  split
  · exact contained_done _
  · exact contained_done _
  · exact contained_elapsed _ fun _ => contained_done _

theorem contained_mainStep (stepsDeadline index : Nat) (step : BatchStep) (progress : Progress) :
    Contained (mainStep stepsDeadline index step progress) := by
  simp only [mainStep, abandoned_bind, interrupted_bind, elapsed_bind]
  split
  · exact contained_done _
  refine contained_ask (by simp) (fun _ => rfl) fun abandoned => ?_
  split
  · exact contained_done _
  refine contained_ask (by simp) (fun _ => rfl) fun interrupted => ?_
  split
  · exact contained_done _
  refine contained_elapsed _ fun elapsed => ?_
  split
  · exact contained_done _
  exact (contained_runStep _ _ _ _ _ _).bind fun run =>
    (contained_rankOutcome _ _ _ _).bind fun outcome => contained_done _

theorem contained_alwaysStep (budget index : Nat) (step : BatchStep) (progress : Progress) :
    Contained (alwaysStep budget index step progress) := by
  simp only [alwaysStep, elapsed_bind]
  split
  · exact contained_done _
  refine contained_elapsed _ fun elapsed => ?_
  split
  · exact contained_done _
  exact (contained_runStep _ _ _ _ _ _).bind fun run => contained_done _

theorem contained_sealRollback (main : Progress) : Contained (sealRollback main) := by
  simp only [sealRollback, sealing_bind]
  split
  · exact contained_done _
  · exact contained_ask (by simp) (fun _ => rfl) fun brokeLate => contained_done _

theorem contained_probeState (steps always : List StepOutcome) (budget : Nat) :
    Contained (probeState steps always budget) := by
  simp only [probeState, elapsed_bind, guarded_running_bind]
  split
  · exact contained_done _
  refine contained_ask (by simp) ?_ ?_
  · intro answer
    cases answer with
    | returned running => rfl
    | panicked why => simp [calm, Call.attempted]
  intro answer
  split
  · exact contained_done _
  refine contained_elapsed _ fun elapsed => contained_engine _ _ fun ran => ?_
  split
  · split
    · exact contained_done _
    · exact contained_done _
  · exact contained_done _

theorem contained_run (op : BatchOp) (budget : Nat) : Contained (run op budget) := by
  refine (Contained.forEach (contained_mainStep _) 0 _ _).bind fun main => ?_
  refine (contained_sealRollback main).bind fun outcome => ?_
  refine (Contained.forEach (contained_alwaysStep _) 0 _ _).bind fun cleanup => ?_
  have hprobe : Contained (sessionAfter main cleanup budget) := by
    unfold sessionAfter
    split
    · exact contained_done _
    · exact contained_probeState _ _ _
  exact hprobe.bind fun after => contained_elapsed _ fun elapsed => contained_done _

/-! ## Panics -/

section

variable {σ : Type} (host : σ → (asked : Query) → asked.Answer × σ) (state : σ) (op : BatchOp)
  (budget : Nat)

/-- No panic escapes the batch: it reports, visits its cleanup and seals, all as if every
call that panicked had returned an error. -/
structure PanicsContained : Prop where
  returns : ∃ report, (execute host state (run op budget)).result = .ok report ∧
    report.always.length = op.always.length
  seals : ∃ event ∈ (execute host state (run op budget)).trace, isSealing event = true
  alike : execute (calmed host) state (run op budget) =
    { execute host state (run op budget) with
      trace := (execute host state (run op budget)).trace.map calmEvent }

theorem panicsContained_iff : PanicsContained host state op budget ↔
    ∀ event ∈ (execute host state (run op budget)).trace, endingPanicked event = false := by
  have hruns := runs_execute host state (run op budget)
  have hunwinds := (contained_run op budget).unwinds_iff hruns
  constructor
  · intro h event hevent
    by_contra hpanicked
    obtain ⟨report, hreport, -⟩ := h.returns
    obtain ⟨payload, hpayload⟩ := hunwinds.mpr ⟨event, hevent, eq_true_of_ne_false hpanicked⟩
    rw [hreport] at hpayload
    cases hpayload
  · intro hcalm
    obtain ⟨report, hresult, ⟨hcompletes⟩⟩ := completes_of_calm hruns hcalm
    refine ⟨⟨report, hresult, ?_⟩, ?_, (contained_run op budget).execute_calmed host state hcalm⟩
    · rw [hcompletes.always_eq]
      exact (alwaysBlock_recorded hcompletes.alwaysRuns).length
    · have hsealed := sealings_before_cleanup hcompletes.mainRuns hcompletes.sealRuns
      apply List.countP_pos_iff.mp
      change 0 < sealings _
      rw [hcompletes.trace_eq]
      simp only [sealings_append]
      omega

end

def unaskable (state : Unit) : (asked : Query) → asked.Answer × Unit
  | ⟨_, .engine _⟩ => (.returned (.error ⟨"refused", none⟩), state)
  | ⟨_, .hasTarget⟩ => (.panicked none, state)
  | ⟨_, .replaced⟩ => (.returned .same, state)
  | ⟨_, .running⟩ => (.returned (some false), state)
  | ⟨_, .elapsed⟩ => ((0 : Nat), state)
  | ⟨_, .abandoned⟩ => (false, state)
  | ⟨_, .interrupted⟩ => (false, state)
  | ⟨_, .sealing _⟩ => (false, state)

def refusedPatch : BatchOp where
  steps := [⟨none, .command "eb nt!flag 1", [], none⟩]
  always := [⟨none, .command "eb nt!flag 0", [], none⟩]

/-- The panic behind the refused patch takes the report with it, and the cleanup. -/
theorem refusedPatch_not_contained : ¬PanicsContained unaskable () refusedPatch 2000000000 := by
  intro h
  obtain ⟨report, hreport, -⟩ := h.returns
  have hescapes : (execute unaskable () (run refusedPatch 2000000000)).result = .error none := by
    decide +kernel
  rw [hescapes] at hreport
  cases hreport

/-! ## Seals -/

/-- The batch seals once, and asks nothing for a cleanup step before it has. -/
structure SealedOnce (trace : Trace) : Prop where
  once : sealings trace = 1
  ahead : ∀ front event back, trace = front ++ event :: back →
    ∀ position, event.query.step? = some (.always, position) → 0 < sealings front

theorem step?_of_lostAt {event : Happening} {loss : Block × Nat} (h : lostAt event = some loss) :
    event.query.step? = some loss := by
  unfold lostAt at h
  split at h
  · split at h
    · cases h
    · rw [← h]
      rfl
  · cases h

theorem prefix_of_outside {α : Type} {first last front back : List α} {event : α}
    (houtside : event ∉ first) (hsplit : first ++ last = front ++ event :: back) :
    first <+: front := by
  cases List.append_eq_append_iff.mp hsplit with
  | inl h =>
    obtain ⟨rest, hfront, -⟩ := h
    exact ⟨rest, hfront.symm⟩
  | inr h =>
    obtain ⟨rest, hfirst, hrest⟩ := h
    cases rest with
    | nil => exact ⟨[], by simpa using hfirst⟩
    | cons other rest =>
      obtain ⟨rfl, -⟩ := List.cons.inj hrest
      exact absurd (by simp [hfirst]) houtside

theorem losses_block {block : Block} {trace : Trace}
    (hasks : ∀ event ∈ trace, ∃ position, event.query.step? = some (block, position)) :
    ∀ loss ∈ losses trace, loss.1 = block := by
  intro loss hloss
  obtain ⟨event, hevent, hlost⟩ := List.mem_filterMap.mp hloss
  obtain ⟨position, hposition⟩ := hasks event hevent
  rw [step?_of_lostAt hlost, Option.some.injEq] at hposition
  rw [hposition]

section

variable {op : BatchOp} {budget : Nat} {main : Progress} {outcome : BatchOutcome}
  {mainTrace sealTrace alwaysTrace probeTrace : Trace}
  {result : Except (Option String) Progress}

/-- A run that comes to its cleanup seals once more for each cleanup step that lost the
target. -/
theorem sealedOnce_of_cleanup (hmain : Runs (mainBlock op.steps budget) mainTrace (.ok main))
    (hseal : Runs (sealRollback main) sealTrace (.ok outcome))
    (halways : Runs (alwaysBlock op.always budget main) alwaysTrace result)
    (hprobe : ∀ event ∈ probeTrace, event.query.Neutral) :
    SealedOnce (mainTrace ++ sealTrace ++ alwaysTrace ++ probeTrace) ↔
      ∀ loss ∈ losses (mainTrace ++ sealTrace ++ alwaysTrace ++ probeTrace), loss.1 = .steps := by
  have hsealed := sealings_before_cleanup hmain hseal
  have hprobed := neutral_trace hprobe
  have hcleanup := alwaysBlock_sealings halways
  have hsealQuery := ((sealRollback_ensures main).of_runs hseal).1
  have hsealLosses : losses sealTrace = [] := by
    apply (losses_eq_nil_iff sealTrace).mpr
    intro event hevent
    apply lostAt_eq_none
    rw [hsealQuery event hevent]
    simp
  have hmainLosses := losses_block (mainBlock_asks hmain)
  have halwaysLosses := losses_block (alwaysBlock_asks halways)
  constructor
  · intro h loss hloss
    have honce := h.once
    simp only [sealings_append, hprobed.1] at honce
    have hkept : losses alwaysTrace = [] := List.length_eq_zero_iff.mp (by omega)
    simp only [losses_append, hsealLosses, hkept, hprobed.2, List.append_nil] at hloss
    exact hmainLosses loss hloss
  · intro h
    have hkept : losses alwaysTrace = [] := by
      cases hlosses : losses alwaysTrace with
      | nil => rfl
      | cons loss _ =>
        have hmem : loss ∈ losses alwaysTrace := by
          rw [hlosses]
          exact List.mem_cons_self
        have hsteps := h loss (by simp [hmem])
        rw [halwaysLosses loss hmem] at hsteps
        cases hsteps
    rw [hkept] at hcleanup
    refine ⟨?_, ?_⟩
    · simp only [sealings_append, hprobed.1, hcleanup, List.length_nil]
      omega
    · intro front event back hsplit position hposition
      have houtside : event ∉ mainTrace ++ sealTrace := by
        intro hevent
        rw [List.mem_append] at hevent
        cases hevent with
        | inl hevent =>
          obtain ⟨other, hother⟩ := mainBlock_asks hmain event hevent
          rw [hposition] at hother
          cases hother
        | inr hevent =>
          rw [hsealQuery event hevent] at hposition
          cases hposition
      rw [List.append_assoc] at hsplit
      have hbefore := prefix_of_outside houtside hsplit
      obtain ⟨rest, rfl⟩ := hbefore
      simp only [sealings_append]
      omega

theorem AsksToProbe.neutral {query : Query} (h : AsksToProbe query) : query.Neutral := by
  obtain ⟨-, hrunning | helapsed | ⟨ms, -, hcommand⟩⟩ := h
  · simp [Query.Neutral, hrunning]
  · simp [Query.Neutral, helapsed]
  · simp [Query.Neutral, hcommand]

theorem main_calm {trace : Trace} {steps : List BatchStep}
    (hmain : Runs (mainBlock steps budget) trace (.ok main)) :
    ∀ event ∈ trace, endingPanicked event = false := by
  have hcontained : Contained (mainBlock steps budget) :=
    Contained.forEach (contained_mainStep _) 0 _ _
  intro event hevent
  by_contra hpanicked
  obtain ⟨payload, hpayload⟩ := (hcontained.unwinds_iff hmain).mpr
    ⟨event, hevent, eq_true_of_ne_false hpanicked⟩
  cases hpayload

def MainPanicked (trace : Trace) : Prop :=
  ∃ event ∈ trace, endingPanicked event = true ∧
    ∃ position, event.query.step? = some (.steps, position)

theorem not_mainPanicked_append {front back : Trace}
    (hfront : ∀ event ∈ front, endingPanicked event = false)
    (hback : ∀ event ∈ back, ∀ position, event.query.step? ≠ some (.steps, position)) :
    ¬MainPanicked (front ++ back) := by
  intro h
  obtain ⟨event, hevent, hpanicked, position, hposition⟩ := h
  rw [List.mem_append] at hevent
  cases hevent with
  | inl hevent =>
    rw [hfront event hevent] at hpanicked
    cases hpanicked
  | inr hevent => exact hback event hevent position hposition

theorem sealedOnce_of_unwound {trace : Trace} {payload : Option String}
    (hmain : Runs (mainBlock op.steps budget) trace (.error payload)) :
    SealedOnce trace ↔ losses trace ≠ [] := by
  have hcount := mainBlock_sealings hmain
  have hle := ((mainBlock_watched hmain).2 payload rfl).losses_length_le
  have hasks := mainBlock_asks hmain
  constructor
  · intro h hnone
    have honce := h.once
    rw [hcount, hnone] at honce
    cases honce
  · intro hlost
    have hpos := List.length_pos_iff.mpr hlost
    refine ⟨by omega, ?_⟩
    intro front event back hsplit position hposition
    obtain ⟨other, hother⟩ := hasks event (by simp [hsplit])
    rw [hposition] at hother
    cases hother

/-- The batch seals exactly once unless a cleanup step loses the target, or a main step that
kept it panics the whole batch. -/
theorem sealedOnce_iff {σ : Type} (host : σ → (asked : Query) → asked.Answer × σ) (state : σ)
    (op : BatchOp) (budget : Nat) :
    SealedOnce (execute host state (run op budget)).trace ↔
      (∀ loss ∈ losses (execute host state (run op budget)).trace, loss.1 = .steps) ∧
      (MainPanicked (execute host state (run op budget)).trace →
        losses (execute host state (run op budget)).trace ≠ []) := by
  have hruns := runs_execute host state (run op budget)
  generalize (execute host state (run op budget)).trace = trace at hruns
  generalize (execute host state (run op budget)).result = result at hruns
  have hcleanup {front back : Trace} {main : Progress} {outcome : BatchOutcome}
      {sealTrace alwaysTrace : Trace} {result : Except (Option String) Progress}
      (hmain : Runs (mainBlock op.steps budget) front (.ok main))
      (hseal : Runs (sealRollback main) sealTrace (.ok outcome))
      (halways : Runs (alwaysBlock op.always budget main) alwaysTrace result)
      (hback : ∀ event ∈ back, event.query.Neutral ∧ event.query.step? = none) :
      SealedOnce (front ++ sealTrace ++ alwaysTrace ++ back) ↔
        (∀ loss ∈ losses (front ++ sealTrace ++ alwaysTrace ++ back), loss.1 = .steps) ∧
        (MainPanicked (front ++ sealTrace ++ alwaysTrace ++ back) →
          losses (front ++ sealTrace ++ alwaysTrace ++ back) ≠ []) := by
    rw [sealedOnce_of_cleanup hmain hseal halways fun event hevent => (hback event hevent).1]
    have hcalm : ¬MainPanicked (front ++ sealTrace ++ alwaysTrace ++ back) := by
      rw [List.append_assoc, List.append_assoc]
      apply not_mainPanicked_append (main_calm hmain)
      intro event hevent position hposition
      simp only [List.mem_append] at hevent
      obtain hevent | hevent | hevent := hevent
      · rw [((sealRollback_ensures main).of_runs hseal).1 event hevent] at hposition
        cases hposition
      · obtain ⟨other, hother⟩ := alwaysBlock_asks halways event hevent
        rw [hposition] at hother
        cases hother
      · rw [(hback event hevent).2] at hposition
        cases hposition
    exact ⟨fun h => ⟨h, fun hpanicked => absurd hpanicked hcalm⟩, And.left⟩
  obtain ⟨report, -, ⟨hcompletes⟩⟩ | ⟨payload, -, hmain | hunwound⟩ := runs_run hruns
  · rw [hcompletes.trace_eq]
    apply hcleanup hcompletes.mainRuns hcompletes.sealRuns hcompletes.alwaysRuns
    intro event hevent
    rw [List.mem_append, List.mem_singleton] at hevent
    cases hevent with
    | inl hevent =>
      have hasks := ((sessionAfter_ensures _ _ _).of_runs hcompletes.probeRuns).1 event hevent
      exact ⟨hasks.neutral, by rw [Query.step?, hasks.1]⟩
    | inr hevent =>
      rw [hevent]
      exact ⟨by simp [Query.Neutral], rfl⟩
  · rw [sealedOnce_of_unwound hmain]
    obtain ⟨event, hevent, hpanicked⟩ := mainBlock_unwinds hmain
    have hescapes : MainPanicked trace :=
      ⟨event, hevent, hpanicked, mainBlock_asks hmain event hevent⟩
    exact ⟨fun h => ⟨losses_block (mainBlock_asks hmain), fun _ => h⟩, fun h => h.2 hescapes⟩
  · obtain ⟨main, outcome, mainTrace, sealTrace, alwaysTrace, rfl, hmain, hseal, halways⟩ :=
      hunwound
    have h := hcleanup hmain hseal halways (List.forall_mem_nil _)
    rw [List.append_nil] at h
    exact h

end

def swapping (state : Unit) : (asked : Query) → asked.Answer × Unit
  | ⟨_, .engine _⟩ => (.returned (.ok ⟨"", false, false⟩), state)
  | ⟨_, .hasTarget⟩ => (.returned (some true), state)
  | ⟨.reading .always _, .replaced⟩ => (.returned (.replaced "another dump was opened"), state)
  | ⟨_, .replaced⟩ => (.returned .same, state)
  | ⟨_, .running⟩ => (.returned (some false), state)
  | ⟨_, .elapsed⟩ => ((0 : Nat), state)
  | ⟨_, .abandoned⟩ => (false, state)
  | ⟨_, .interrupted⟩ => (false, state)
  | ⟨_, .sealing _⟩ => (false, state)

def swapInCleanup : BatchOp where
  steps := [⟨none, .command "eb nt!flag 1", [], none⟩]
  always := [⟨none, .command ".opendump other.dmp", [], none⟩]

/-- It seals for the rollback, and again for the target that the cleanup lost. -/
theorem swapInCleanup_sealed_twice :
    ¬SealedOnce (execute swapping () (run swapInCleanup 2000000000)).trace := by
  intro h
  have htwice : sealings (execute swapping () (run swapInCleanup 2000000000)).trace = 2 := by
    decide +kernel
  rw [h.once] at htwice
  cases htwice

end WindbgMcp.Batch
