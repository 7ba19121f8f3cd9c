import WindbgMcp.Batch.BlockRuns

/-! The outcome a report carries is sound: which steps ran, in which order, how
each ended, and where the batch stopped. -/
namespace WindbgMcp.Batch

open Library Program

def brokeAtSeal : Happening → Bool
  | ⟨⟨.seal, .sealing .rollback⟩, broke⟩ => broke
  | _ => false

def mainActions (trace : Trace) : List Nat :=
  (actions trace).filterMap fun issued => if issued.1 = .steps then some issued.2 else none

/-- The query that puts the action of one of `items` to the engine. -/
def IssuesFrom (block : Block) (items : List BatchStep) (query : Query) : Prop :=
  ∃ (i : Nat) (step : BatchStep) (bound : Bindings) (action : StepAction) (checks : List Check)
      (ms : Nat),
    items[i]? = some step ∧ step.substituted bound.get = .ok (action, checks) ∧
      query = actionQuery block (i + 1) (action.call ms)

/-- Where the batch stopped: everything before that step is clean, everything
behind it was skipped. -/
def StoppedAt (position : Nat) (done : List StepOutcome) : Prop :=
  ∀ i outcome, done[i]? = some outcome →
    (i + 1 < position → outcome.clean = true) ∧
      (position < i + 1 → outcome.result.isSkipped = true)

structure MainSound (steps : List BatchStep) (index : Nat) (progress : Progress)
    (trace : Trace) : Prop where
  clean : progress.outcome = .committed → ∀ outcome ∈ progress.done, outcome.clean = true
  stopped : ∀ position, progress.outcome.position? = some position →
    1 ≤ position ∧ position ≤ index ∧ StoppedAt position progress.done
  actions : ∃ count, actions trace = (List.range' 1 count).map (Block.steps, ·) ∧
    count ≤ index ∧ (progress.outcome = .committed → count = index)
  reach : ∀ event ∈ trace, ∃ position, event.query.step? = some (.steps, position) ∧
    position ≤ index ∧
    ∀ last, progress.outcome.position? = some last → position ≤ last
  issued : ∀ event ∈ trace, event.query.action?.isSome → IssuesFrom .steps steps event.query
  gone : progress.done.countP (·.targetGone) = progress.ended.toNat

section

variable {stepsDeadline budget index : Nat} {step : BatchStep} {steps always : List BatchStep}
  {progress next main : Progress} {before trace : Trace}

theorem StoppedAt.skip {position : Nat} {done : List StepOutcome} {outcome : StepOutcome}
    (h : StoppedAt position done) (hskipped : outcome.result.isSkipped = true)
    (hlast : position ≤ done.length) : StoppedAt position (done ++ [outcome]) := by
  intro i other hother
  rcases getElem?_concat_cases hother with hother | ⟨rfl, rfl⟩
  · exact h i other hother
  · exact ⟨fun _ => by omega, fun _ => hskipped⟩

theorem stoppedAt_last {done : List StepOutcome} {outcome : StepOutcome}
    (hclean : ∀ outcome ∈ done, outcome.clean = true) :
    StoppedAt (done.length + 1) (done ++ [outcome]) := by
  intro i other hother
  rcases getElem?_concat_cases hother with hother | ⟨rfl, rfl⟩
  · have hlt := (List.getElem?_eq_some_iff.mp hother).1
    exact ⟨fun _ => hclean other (List.mem_of_getElem? hother), fun _ => by omega⟩
  · exact ⟨fun _ => by omega, fun _ => by omega⟩

theorem countP_gone_append (done : List StepOutcome) (outcome : StepOutcome) :
    (done ++ [outcome]).countP (·.targetGone) =
      done.countP (·.targetGone) + outcome.targetGone.toNat := by
  cases h : outcome.targetGone <;> simp [List.countP_append, h]

theorem gone_toNat {ended gone : Bool} (h : gone = true → ended = false) :
    ended.toNat + gone.toNat = (ended || gone).toNat := by
  cases ended <;> cases gone <;> simp_all

theorem StepOutcome.isSkipped_of_clean {outcome : StepOutcome} (h : outcome.clean = true) :
    outcome.result.isSkipped = false := by
  simp only [StepOutcome.clean, StepOutcome.ok, Bool.and_eq_true, beq_iff_eq] at h
  rw [h.1.1]
  rfl

theorem issues_between {block : Block} {bound : Bindings} {reading : Held}
    {gates middle ranking : Trace} {items : List BatchStep} (hitem : items[index]? = some step)
    (hgates : Gates block (index + 1) gates) (hranking : Gates block (index + 1) ranking)
    (hstep : StepTrace block step (index + 1) bound middle reading) :
    (∀ event ∈ gates ++ (middle ++ ranking), event.query.step? = some (block, index + 1) ∧
        (event.query.action?.isSome → IssuesFrom block items event.query)) ∧
      actions (gates ++ (middle ++ ranking)) =
        if (step.substituted bound.get).isOk then [(block, index + 1)] else [] := by
  refine ⟨?_, ?_⟩
  · have hgate (event : Happening) (h : IsGate block (index + 1) event.query) :
        event.query.step? = some (block, index + 1) ∧
          (event.query.action?.isSome → IssuesFrom block items event.query) := by
      refine ⟨h.step?_eq, fun hissued => ?_⟩
      rw [h.action?_eq] at hissued
      cases hissued
    intro event hevent
    simp only [List.mem_append] at hevent
    rcases hevent with hevent | hevent | hevent
    · exact hgate event (hgates event hevent)
    · refine ⟨hstep.steps event hevent, fun hissued => ?_⟩
      obtain ⟨action, checks, ms, hok, hquery⟩ := hstep.issues event hevent hissued
      exact ⟨index, step, bound, action, checks, ms, hitem, hok, hquery⟩
    · exact hgate event (hranking event hevent)
  · rw [actions_append, actions_append, hgates.actions_eq, hranking.actions_eq, hstep.actions]
    simp

theorem MainSound.reach_here {outcome : BatchOutcome} (h : MainSound steps index progress before)
    (hlast : ∀ last, outcome.position? = some last → last = index + 1)
    (htrace : ∀ event ∈ trace, event.query.step? = some (.steps, index + 1)) :
    ∀ event ∈ before ++ trace, ∃ position, event.query.step? = some (.steps, position) ∧
      position ≤ index + 1 ∧ ∀ last, outcome.position? = some last → position ≤ last := by
  intro event hevent
  rcases List.mem_append.mp hevent with hevent | hevent
  · obtain ⟨position, hstep, hle, -⟩ := h.reach event hevent
    refine ⟨position, hstep, by omega, fun last hat => ?_⟩
    rw [hlast last hat]
    omega
  · refine ⟨index + 1, htrace event hevent, Nat.le_refl _, fun last hat => ?_⟩
    exact Nat.le_of_eq (hlast last hat).symm

theorem MainSound.issued_here (h : MainSound steps index progress before)
    (htrace : ∀ event ∈ trace, event.query.action?.isSome → IssuesFrom .steps steps event.query) :
    ∀ event ∈ before ++ trace, event.query.action?.isSome →
      IssuesFrom .steps steps event.query := by
  intro event hevent
  rcases List.mem_append.mp hevent with hevent | hevent
  · exact h.issued event hevent
  · exact htrace event hevent

theorem MainSound.stopped_here {outcome : BatchOutcome} (h : MainSound steps index progress before)
    (hrecorded : Recorded steps index progress.done) (hcommitted : progress.outcome = .committed)
    (hlast : ∀ last, outcome.position? = some last → last = index + 1) (done : StepOutcome) :
    ∀ position, outcome.position? = some position →
      1 ≤ position ∧ position ≤ index + 1 ∧ StoppedAt position (progress.done ++ [done]) := by
  intro position hposition
  obtain rfl := hlast position hposition
  refine ⟨by omega, Nat.le_refl _, ?_⟩
  rw [← hrecorded.length]
  exact stoppedAt_last (h.clean hcommitted)

theorem MainSound.skip (h : MainSound steps index progress before)
    (hrecorded : Recorded steps index progress.done) (hstopped : progress.outcome ≠ .committed)
    (why : String) :
    MainSound steps (index + 1) (progress.skip progress.outcome (index + 1) step why) before := by
  obtain ⟨count, hactions, hcount, -⟩ := h.actions
  refine ⟨fun hcommitted => absurd hcommitted hstopped, ?_, ⟨count, hactions, by omega,
    fun hcommitted => absurd hcommitted hstopped⟩, ?_, h.issued, ?_⟩
  · intro position hposition
    obtain ⟨hfirst, hlast, hat⟩ := h.stopped position hposition
    exact ⟨hfirst, by omega, hat.skip rfl (by rw [hrecorded.length]; exact hlast)⟩
  · intro event hevent
    obtain ⟨position, hstep, hle, hreach⟩ := h.reach event hevent
    exact ⟨position, hstep, by omega, hreach⟩
  · rw [Progress.skip, countP_gone_append, h.gone]
    simp [StepOutcome.skipped]

theorem MainSound.gate {outcome : BatchOutcome} {gates : Trace}
    (h : MainSound steps index progress before) (hrecorded : Recorded steps index progress.done)
    (hcommitted : progress.outcome = .committed) (houtcome : outcome.position? = some (index + 1))
    (hgates : Gates .steps (index + 1) gates) (why : String) :
    MainSound steps (index + 1) (progress.skip outcome (index + 1) step why) (before ++ gates) := by
  obtain ⟨count, hactions, hcount, -⟩ := h.actions
  have hlast : ∀ last, outcome.position? = some last → last = index + 1 :=
    fun last hlast => Option.some.inj (hlast.symm.trans houtcome)
  have hne : outcome ≠ .committed := by
    rintro rfl
    cases houtcome
  refine ⟨fun h => absurd h hne, h.stopped_here hrecorded hcommitted hlast _,
    ⟨count, ?_, by omega, fun h => absurd h hne⟩,
    h.reach_here hlast fun event hevent => (hgates event hevent).step?_eq,
    h.issued_here fun event hevent hissued => ?_, ?_⟩
  · rw [actions_append, hgates.actions_eq, List.append_nil]
    exact hactions
  · rw [(hgates event hevent).action?_eq] at hissued
    cases hissued
  · rw [Progress.skip, countP_gone_append, h.gone]
    simp [StepOutcome.skipped]

theorem MainSound.turn (h : MainSound steps index progress before)
    (hrecorded : Recorded steps index progress.done) (hitem : steps[index]? = some step)
    (hturn : MainTurn stepsDeadline index step progress trace next) :
    MainSound steps (index + 1) next (before ++ trace) := by
  cases hturn with
  | stopped why hstopped =>
    rw [List.append_nil]
    exact h.skip hrecorded hstopped why
  | gated outcome why gates hcommitted houtcome hkept hgates =>
    exact h.gate hrecorded hcommitted houtcome hgates why
  | ran gates middle ranking run outcome hcommitted hgates hrun hranking hranks =>
    obtain ⟨count, hactions, -, hall⟩ := h.actions
    have hreturns := runStep_returns hrun
    obtain ⟨hevents, hissues⟩ := issues_between hitem hgates hranking hreturns.trace
    have hlast : ∀ last, outcome.position? = some last → last = index + 1 := by
      intro last hlast
      rcases hranks with ⟨rfl, -⟩ | ⟨hposition, -⟩
      · cases hlast
      · exact Option.some.inj (hlast.symm.trans hposition)
    have hclean : outcome = .committed → run.outcome.clean = true := by
      intro hsame
      rcases hranks with ⟨-, hclean, -⟩ | ⟨hposition, -⟩
      · exact hclean
      · rw [hsame] at hposition
        cases hposition
    refine ⟨?_, h.stopped_here hrecorded hcommitted hlast _, ?_,
      h.reach_here hlast fun event hevent => (hevents event hevent).1,
      h.issued_here fun event hevent => (hevents event hevent).2, ?_⟩
    · intro hsame other hother
      rcases List.mem_append.mp hother with hother | hother
      · exact h.clean hcommitted other hother
      · rw [List.mem_singleton.mp hother]
        exact hclean hsame
    · rw [actions_append, hissues, hactions, hall hcommitted]
      by_cases hok : (step.substituted progress.bound.get).isOk = true
      · refine ⟨index + 1, ?_, Nat.le_refl _, fun _ => rfl⟩
        rw [if_pos hok, List.range'_1_concat, List.map_append, Nat.add_comm 1 index]
        rfl
      · -- a step that does not resolve is skipped, which no clean one is
        refine ⟨index, by simp [hok], by omega, fun hsame => ?_⟩
        have hran := StepOutcome.isSkipped_of_clean (hclean hsame)
        rw [hreturns.skipped] at hran
        simp [hok] at hran
    · rw [Progress.record, countP_gone_append, h.gone]
      exact gone_toNat hreturns.goneOnce

theorem mainBlock_sound (h : Runs (mainBlock steps budget) trace (.ok main)) :
    MainSound steps steps.length main trace := by
  refine (mainBlock_turns (fun index progress trace =>
    Recorded steps index progress.done ∧ MainSound steps index progress trace) ?_
    ⟨recorded_nil steps, ?_⟩ h).2
  · rintro index step progress before trace next hitem ⟨hrecorded, hsound⟩ hturn
    obtain ⟨outcome, hadds⟩ := hturn.adds
    exact ⟨hrecorded.add hitem hadds, hsound.turn hrecorded hitem hturn⟩
  · exact ⟨by simp, by simp [BatchOutcome.position?], ⟨0, rfl, Nat.le_refl _, fun _ => rfl⟩, by simp,
      by simp, rfl⟩

/-! ## The cleanup and the seal -/

theorem alwaysBlock_gone {cleanup : Progress}
    (hgone : main.done.countP (·.targetGone) = main.ended.toNat)
    (h : Runs (alwaysBlock always budget main) trace (.ok cleanup)) :
    (main.done ++ cleanup.done).countP (·.targetGone) = cleanup.ended.toNat := by
  refine alwaysBlock_turns (fun _ progress _ =>
    (main.done ++ progress.done).countP (·.targetGone) = progress.ended.toNat) ?_ []
    (by simpa using hgone) h
  intro index step progress before trace next hitem hcount hturn
  have hskip : ∀ why, (main.done ++ (progress.done ++
      [StepOutcome.skipped (index + 1) step why])).countP (·.targetGone) =
      progress.ended.toNat := by
    intro why
    rw [← List.append_assoc, countP_gone_append, hcount]
    rfl
  cases hturn with
  | withheld seen hseen => exact hskip _
  | late elapsed hkept hlate why => exact hskip _
  | ran elapsed middle run hkept hintime hrun =>
    rw [Progress.record, ← List.append_assoc, countP_gone_append, hcount]
    exact gone_toNat (runStep_returns hrun).goneOnce

/-- The seal keeps the outcome, unless it finds a break pending on a batch that
would have committed. -/
theorem runs_sealRollback {outcome : BatchOutcome}
    (h : Runs (sealRollback main) trace (.ok outcome)) :
    (outcome = main.outcome ∧
        (outcome = .committed → ∀ event ∈ trace, brokeAtSeal event = false)) ∨
      main.outcome = .committed ∧ outcome = .interrupted (max main.done.length 1) := by
  simp only [sealRollback, sealing_bind] at h
  split at h
  · simp only [pure_eq, runs_done_iff, Except.ok.injEq] at h
    obtain ⟨rfl, rfl⟩ := h
    exact Or.inl ⟨rfl, by simp⟩
  · simp only [runs_ask_iff, pure_eq, runs_done_iff, Except.ok.injEq] at h
    obtain ⟨brokeLate, _, rfl, rfl, rfl⟩ := h
    by_cases hlate : main.outcome = .committed ∧ (brokeLate : Bool) = true
    · rw [if_pos hlate]
      exact Or.inr ⟨hlate.1, rfl⟩
    · rw [if_neg hlate]
      refine Or.inl ⟨rfl, fun hcommitted event hevent => ?_⟩
      rw [List.mem_singleton.mp hevent]
      exact eq_false_of_ne_true fun hbroke => hlate ⟨hcommitted, hbroke⟩

end

/-- What a report says of its batch.  `last` bounds the position that the outcome
carries. -/
structure OutcomeSound (op : BatchOp) (trace : Trace) (report : BatchReport) (last : Nat) :
    Prop where
  steps : Recorded op.steps op.steps.length report.steps
  always : Recorded op.always op.always.length report.always
  actions : ∃ count, count ≤ op.steps.length ∧ mainActions trace = List.range' 1 count
  issued : ∀ event ∈ trace, ∀ position, event.query.action? = some (.steps, position) →
    IssuesFrom .steps op.steps event.query
  committed : report.outcome = .committed →
    (∀ outcome ∈ report.steps, outcome.ok = true ∧ outcome.cutShort = false ∧
      outcome.targetGone = false) ∧ ∀ event ∈ trace, brokeAtSeal event = false
  stopped : ∀ position, report.outcome.position? = some position →
    1 ≤ position ∧ position ≤ last ∧
      ∀ i outcome, report.steps[i]? = some outcome →
        (i + 1 < position → outcome.ok = true ∧ outcome.cutShort = false ∧
          outcome.targetGone = false) ∧
        (position < i + 1 → outcome.result.isSkipped = true ∧
          ∀ event ∈ trace, event.query.step? = some (.steps, i + 1) →
            event.query.engineCall? = none)
  goneOnce : (report.steps ++ report.always).countP (·.targetGone) ≤ 1

theorem StepOutcome.clean_iff (outcome : StepOutcome) : outcome.clean = true ↔
    outcome.ok = true ∧ outcome.cutShort = false ∧ outcome.targetGone = false := by
  simp [StepOutcome.clean, and_assoc]

theorem Completes.behind_main {op : BatchOp} {budget : Nat} {trace : Trace}
    {report : BatchReport} (h : Completes op budget trace report) :
    ∃ back, trace = h.mainTrace ++ h.sealTrace ++ back ∧
      (∀ event ∈ h.sealTrace, event.query = ⟨.seal, .sealing .rollback⟩) ∧
      ∀ event ∈ back, (∀ position, event.query.step? ≠ some (.steps, position)) ∧
        brokeAtSeal event = false := by
  have hprobe := ((sessionAfter_ensures h.main h.cleanup budget).of_runs h.probeRuns).1
  refine ⟨h.alwaysTrace ++ (h.probeTrace ++ [⟨⟨.report, .elapsed⟩, report.elapsed⟩]), ?_,
    ((sealRollback_ensures h.main).of_runs h.sealRuns).1, ?_⟩
  · rw [← List.append_assoc]
    exact h.trace_eq
  · intro event hevent
    have hseal : event.query.site ≠ .seal → brokeAtSeal event = false := by
      intro hsite
      unfold brokeAtSeal
      split
      · exact absurd rfl hsite
      · rfl
    simp only [List.mem_append, List.mem_singleton] at hevent
    rcases hevent with hevent | hevent | rfl
    · obtain ⟨position, hstep⟩ := alwaysBlock_asks h.alwaysRuns event hevent
      refine ⟨fun other hother => ?_, hseal fun hsite => ?_⟩
      · rw [hstep] at hother
        cases hother
      · rw [Query.step?, hsite] at hstep
        cases hstep
    · have hsite := (hprobe event hevent).1
      refine ⟨fun other hother => ?_, hseal fun hother => ?_⟩
      · rw [Query.step?, hsite] at hother
        cases hother
      · rw [hsite] at hother
        cases hother
    · exact ⟨by simp [Query.step?], rfl⟩

theorem mainActions_append (front back : Trace) :
    mainActions (front ++ back) = mainActions front ++ mainActions back := by
  simp [mainActions]

theorem mainActions_eq_nil {trace : Trace}
    (h : ∀ event ∈ trace, ∀ position, event.query.step? ≠ some (.steps, position)) :
    mainActions trace = [] := by
  refine List.filterMap_eq_nil_iff.mpr ?_
  rintro ⟨block, position⟩ hissued
  obtain ⟨event, hevent, haction⟩ := List.mem_filterMap.mp hissued
  cases block with
  | steps => exact absurd (step?_of_action? haction) (h event hevent position)
  | always => rfl

theorem mainActions_of_actions {trace : Trace} {count : Nat}
    (h : actions trace = (List.range' 1 count).map (Block.steps, ·)) :
    mainActions trace = List.range' 1 count := by
  rw [mainActions, h, List.filterMap_map]
  exact List.filterMap_some

section

variable {op : BatchOp} {budget : Nat} {trace : Trace} {report : BatchReport}

theorem Completes.mem_mainTrace (h : Completes op budget trace report) {event : Happening}
    (hevent : event ∈ trace) {position : Nat}
    (hstep : event.query.step? = some (.steps, position)) : event ∈ h.mainTrace := by
  obtain ⟨back, htrace, hseal, hback⟩ := h.behind_main
  rw [htrace] at hevent
  simp only [List.mem_append] at hevent
  rcases hevent with (hevent | hevent) | hevent
  · exact hevent
  · rw [hseal event hevent] at hstep
    cases hstep
  · exact absurd hstep ((hback event hevent).1 position)

theorem Completes.mainActions_eq (h : Completes op budget trace report) :
    ∃ count, count ≤ op.steps.length ∧ mainActions trace = List.range' 1 count := by
  obtain ⟨back, htrace, hseal, hback⟩ := h.behind_main
  obtain ⟨count, hactions, hcount, -⟩ := (mainBlock_sound h.mainRuns).actions
  have hnoseal : mainActions h.sealTrace = [] := mainActions_eq_nil fun event hevent position => by
    rw [hseal event hevent]
    simp [Query.step?]
  refine ⟨count, hcount, ?_⟩
  rw [htrace, mainActions_append, mainActions_append, mainActions_of_actions hactions, hnoseal,
    mainActions_eq_nil fun event hevent => (hback event hevent).1]
  simp

theorem Completes.unbroken (h : Completes op budget trace report)
    (hcalm : ∀ event ∈ h.sealTrace, brokeAtSeal event = false) :
    ∀ event ∈ trace, brokeAtSeal event = false := by
  obtain ⟨back, htrace, -, hback⟩ := h.behind_main
  intro event hevent
  rw [htrace] at hevent
  simp only [List.mem_append] at hevent
  rcases hevent with (hevent | hevent) | hevent
  · obtain ⟨position, hstep, -⟩ := (mainBlock_sound h.mainRuns).reach event hevent
    unfold brokeAtSeal
    split
    · cases hstep
    · rfl
  · exact hcalm event hevent
  · exact (hback event hevent).2

/-- A position that the outcome carries is that of the main block, or the last one if
the seal found a break behind a clean block. -/
theorem Completes.stoppedAt (h : Completes op budget trace report) {position : Nat}
    (hposition : report.outcome.position? = some position) :
    1 ≤ position ∧ position ≤ max op.steps.length 1 ∧ StoppedAt position report.steps ∧
      ∀ event ∈ trace, ∀ behind, position < behind →
        event.query.step? ≠ some (.steps, behind) := by
  have hsound := mainBlock_sound h.mainRuns
  have hsteps := mainBlock_recorded h.mainRuns
  rw [h.steps_eq]
  rcases runs_sealRollback h.sealRuns with ⟨hsame, -⟩ | ⟨hcommitted, hbrokeLate⟩
  · rw [hsame] at hposition
    obtain ⟨hfirst, hlast, hstopped⟩ := hsound.stopped position hposition
    refine ⟨hfirst, by omega, hstopped, fun event hevent behind hbehind hstep => ?_⟩
    obtain ⟨reached, hreached, -, hle⟩ := hsound.reach event (h.mem_mainTrace hevent hstep)
    obtain ⟨-, rfl⟩ := Prod.mk.inj (Option.some.inj (hstep.symm.trans hreached))
    have := hle position hposition
    omega
  · rw [hbrokeLate] at hposition
    obtain rfl := Option.some.inj hposition
    rw [hsteps.length]
    refine ⟨by omega, Nat.le_refl _, ?_, fun event hevent behind hbehind hstep => ?_⟩
    · intro i outcome houtcome
      have hlt := (List.getElem?_eq_some_iff.mp houtcome).1
      rw [hsteps.length] at hlt
      exact ⟨fun _ => hsound.clean hcommitted outcome (List.mem_of_getElem? houtcome),
        fun _ => by omega⟩
    · obtain ⟨reached, hreached, hle, -⟩ := hsound.reach event (h.mem_mainTrace hevent hstep)
      obtain ⟨-, rfl⟩ := Prod.mk.inj (Option.some.inj (hstep.symm.trans hreached))
      omega

theorem Completes.sound (h : Completes op budget trace report) :
    OutcomeSound op trace report (max op.steps.length 1) := by
  have hsound := mainBlock_sound h.mainRuns
  have hgone := alwaysBlock_gone hsound.gone h.alwaysRuns
  constructor
  · rw [h.steps_eq]
    exact mainBlock_recorded h.mainRuns
  · rw [h.always_eq]
    exact alwaysBlock_recorded h.alwaysRuns
  · exact h.mainActions_eq
  · intro event hevent position hissued
    have hevent := h.mem_mainTrace hevent (step?_of_action? hissued)
    exact hsound.issued event hevent (by rw [hissued]; rfl)
  · intro hcommitted
    rw [h.steps_eq]
    rcases runs_sealRollback h.sealRuns with ⟨hsame, hcalm⟩ | ⟨-, hbrokeLate⟩
    · rw [hsame] at hcommitted
      refine ⟨fun outcome houtcome => ?_, h.unbroken (hcalm (hsame.trans hcommitted))⟩
      exact outcome.clean_iff.mp (hsound.clean hcommitted outcome houtcome)
    · rw [hcommitted] at hbrokeLate
      cases hbrokeLate
  · intro position hposition
    obtain ⟨hfirst, hlast, hstopped, hbehind⟩ := h.stoppedAt hposition
    refine ⟨hfirst, hlast, fun i outcome houtcome => ⟨fun hi => ?_, fun hi => ?_⟩⟩
    · exact outcome.clean_iff.mp ((hstopped i outcome houtcome).1 hi)
    · refine ⟨(hstopped i outcome houtcome).2 hi, fun event hevent hstep => ?_⟩
      exact absurd hstep (hbehind event hevent (i + 1) hi)
  · rw [h.steps_eq, h.always_eq, hgone]
    cases h.cleanup.ended <;> decide

end

/-- Whatever the debugger does, a report that the executor returns is sound, and it
returns one unless asking for a target panics. -/
theorem outcome_sound {σ : Type} (host : σ → (asked : Query) → asked.Answer × σ) (state : σ)
    (op : BatchOp) (budget : Nat) :
    let execution := execute host state (run op budget)
    (∀ report, execution.result = .ok report →
      OutcomeSound op execution.trace report (max op.steps.length 1)) ∧
    ((∀ event ∈ execution.trace, endingPanicked event = false) →
      ∃ report, execution.result = .ok report) := by
  intro execution
  have hruns : Runs (run op budget) execution.trace execution.result :=
    runs_execute host state (run op budget)
  refine ⟨?_, ?_⟩
  · intro report hresult
    rcases runs_run hruns with ⟨other, hother, ⟨hcompletes⟩⟩ | ⟨payload, herror, -⟩
    · obtain rfl := Except.ok.inj (hresult.symm.trans hother)
      exact hcompletes.sound
    · rw [hresult] at herror
      cases herror
  · intro hcalm
    obtain ⟨report, hresult, -⟩ := completes_of_calm hruns hcalm
    exact ⟨report, hresult⟩

/-- A debugger that answers everything at once, with a break pending at every seal
and its target running. -/
def breakPending (state : Unit) (asked : Query) : asked.Answer × Unit :=
  match asked with
  | ⟨_, .engine _⟩ => (.returned (.ok ⟨"", false, false⟩), state)
  | ⟨_, .hasTarget⟩ => (.returned (some true), state)
  | ⟨_, .replaced⟩ => (.returned .same, state)
  | ⟨_, .running⟩ => (.returned (some true), state)
  | ⟨_, .elapsed⟩ => ((0 : Nat), state)
  | ⟨_, .abandoned⟩ => (false, state)
  | ⟨_, .interrupted⟩ => (false, state)
  | ⟨_, .sealing _⟩ => (true, state)

/-- A batch without steps that a break reaches at the seal carries position 1. -/
theorem empty_batch_stops_at_one :
    ∃ report, (execute breakPending () (run ⟨[], []⟩ 2000000000)).result = .ok report ∧
      ¬ OutcomeSound ⟨[], []⟩ (execute breakPending () (run ⟨[], []⟩ 2000000000)).trace report
        ([] : List BatchStep).length := by
  refine ⟨_, rfl, fun h => ?_⟩
  have hlast := (h.stopped 1 rfl).2.1
  cases hlast

end WindbgMcp.Batch
