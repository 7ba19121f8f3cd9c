import WindbgMcp.Batch.BlockRuns

/-! No work is aimed at a target that can no longer be certified: after a reading
that lost it comes the seal and no engine call, in either block and in the probe,
and the report says what became of the rollback. -/
namespace WindbgMcp.Batch

open Library Program

theorem Held.lost_isSome_iff (reading : Held) : reading.lost.isSome ↔ reading ≠ .same := by
  cases reading <;> simp [Held.lost]

@[simp] theorem record_unverified_isSome (progress : Progress) (duringCleanup : Bool)
    (outcome : BatchOutcome) (run : StepRun) :
    (progress.record duringCleanup outcome run).unverified.isSome ↔
      run.reading ≠ .same ∨ progress.unverified.isSome := by
  rw [← Held.lost_isSome_iff]
  cases h : run.reading.lost <;> simp [Progress.record, h]

/-- What the main block knows of the target, beside what its trace shows. -/
structure MainWatched (progress : Progress) (trace : Trace) : Prop where
  certified : Certified trace
  blocks : ∀ loss ∈ losses trace, loss.1 = .steps
  lost_iff : progress.unverified.isSome ↔ losses trace ≠ []
  withheld_iff : progress.outcome.withheld = true ↔ progress.unverified.isSome
  notCleanup : ∀ seen, progress.unverified = some seen → seen.duringCleanup = false

section

variable {stepsDeadline budget index position deadline : Nat} {step : BatchStep}
  {block : Block} {bound : Bindings} {alreadyGone : Bool} {progress next main : Progress}
  {before trace front middle : Trace}

theorem MainWatched.kept (h : MainWatched progress trace)
    (hcommitted : progress.outcome = .committed) :
    progress.unverified = none ∧ losses trace = [] := by
  have hnone : ¬ progress.unverified.isSome := by
    rw [← h.withheld_iff, hcommitted]
    simp [BatchOutcome.withheld]
  refine ⟨by simpa using hnone, ?_⟩
  by_contra hlost
  exact hnone (h.lost_iff.mpr hlost)

theorem certified_step {reading : Held} (hfront : losses front = [])
    (htrace : StepTrace block step position bound middle reading) (hfrontCertified : Certified front) :
    Certified (front ++ middle) ∧
      losses (front ++ middle) = if reading = .same then [] else [(block, position)] := by
  refine ⟨certified_append hfrontCertified (fun h => absurd hfront h) fun _ => htrace.certified, ?_⟩
  rw [losses_append, hfront, htrace.losses, List.nil_append]

theorem Gates.quiet (h : Gates block position trace) : Quiet trace :=
  fun event hevent => (h event hevent).2

theorem certified_quiet {quiet : Trace} (hfront : Certified front) (hquiet : Quiet quiet) :
    Certified (front ++ quiet) ∧ losses (front ++ quiet) = losses front := by
  have hlosses : losses quiet = [] :=
    (losses_eq_nil_iff quiet).mpr fun event hevent => lostAt_eq_none (hquiet event hevent).2
  refine ⟨certified_append hfront (fun _ => hquiet)
    fun _ => certified_of_losses_eq_nil hlosses, ?_⟩
  rw [losses_append, hlosses, List.append_nil]

theorem MainWatched.turn (h : MainWatched progress before)
    (hturn : MainTurn stepsDeadline index step progress trace next) :
    MainWatched next (before ++ trace) := by
  cases hturn with
  | stopped why hstopped =>
    rw [List.append_nil]
    exact ⟨h.certified, h.blocks, h.lost_iff, h.withheld_iff, h.notCleanup⟩
  | gated outcome why gates hcommitted houtcome hkept hgates =>
    obtain ⟨hunverified, hlosses⟩ := h.kept hcommitted
    obtain ⟨hcertified, hsame⟩ := certified_quiet h.certified hgates.quiet
    refine ⟨hcertified, by simp [hsame, hlosses], ?_, ?_, h.notCleanup⟩
    · rw [hsame]
      exact h.lost_iff
    · simp [Progress.skip, hkept, hunverified]
  | ran gates middle ranking run outcome hcommitted hgates hrun hranking hranks =>
    obtain ⟨hunverified, hlosses⟩ := h.kept hcommitted
    obtain ⟨hcertified, hsame⟩ := certified_quiet h.certified hgates.quiet
    obtain ⟨hcertified, hstep⟩ := certified_step (hsame.trans hlosses)
      (runStep_returns hrun).trace hcertified
    obtain ⟨hcertified, hlast⟩ := certified_quiet hcertified hranking.quiet
    rw [hstep] at hlast
    have htrace : before ++ (gates ++ (middle ++ ranking)) =
        before ++ gates ++ middle ++ ranking := by simp
    rw [htrace]
    refine ⟨hcertified, ?_, ?_, ?_, ?_⟩
    · rw [hlast]
      split <;> simp
    · rw [hlast, record_unverified_isSome, hunverified]
      by_cases hheld : run.reading = .same
      · simp [hheld]
      · simp [hheld]
    · rw [record_unverified_isSome, hunverified]
      rcases hranks with ⟨rfl, -, hheld⟩ | ⟨-, hwithheld⟩
      · simp [Progress.record, BatchOutcome.withheld, hheld]
      · simpa [Progress.record] using hwithheld
    · intro seen hseen
      cases hlost : run.reading.lost with
      | none => simp [Progress.record, hlost, hunverified] at hseen
      | some lost =>
        simp only [Progress.record, hlost, Option.map_some, Option.some_or,
          Option.some.injEq] at hseen
        rw [← hseen]
        rfl

theorem mainBlock_watched {steps : List BatchStep} {result : Except (Option String) Progress}
    (h : Runs (mainBlock steps budget) trace result) :
    (∀ main, result = .ok main → MainWatched main trace) ∧
      (∀ payload, result = .error payload → Certified trace) := by
  refine runs_forEach (fun _ progress trace => MainWatched progress trace) Certified ?_ []
    ⟨trivial, by simp [losses], by simp [losses], by simp [BatchOutcome.withheld],
      by simp⟩ h
  intro index step progress before trace result hitem hwatched hruns
  rcases runs_mainStep hruns with ⟨next, rfl, hturn⟩ |
    ⟨payload, gates, middle, rfl, rfl, hcommitted, hgates, hrun⟩
  · refine ⟨?_, by simp⟩
    intro last hlast
    obtain rfl := Except.ok.inj hlast
    exact hwatched.turn hturn
  · refine ⟨by simp, fun _ _ => ?_⟩
    obtain ⟨hcertified, hsame⟩ := certified_quiet hwatched.certified hgates.quiet
    obtain ⟨-, reading, htrace⟩ := runStep_unwinds hrun
    rw [← List.append_assoc]
    exact (certified_step (hsame.trans (hwatched.kept hcommitted).2) htrace hcertified).1

/-- What the cleanup knows of the target, from where the main block left it. -/
structure AlwaysWatched (main progress : Progress) (trace : Trace) : Prop where
  certified : Certified trace
  lost_iff : progress.unverified.isSome ↔ losses trace ≠ []
  withheld : main.unverified.isSome →
    progress.unverified = main.unverified ∧ ∀ outcome ∈ progress.done,
      outcome.result.isSkipped = true
  cleanup_iff : ∀ seen, progress.unverified = some seen →
    (seen.duringCleanup = true ↔ ∃ loss ∈ losses trace, loss.1 = .always)
  blocks : ∀ loss ∈ losses trace, loss.1 = .steps ↔ main.unverified.isSome
  supplied : ∀ loss ∈ losses trace, loss.1 = .always → progress.done ≠ []

theorem AlwaysWatched.losses_eq (h : AlwaysWatched main progress trace)
    (hkept : progress.unverified = none) : losses trace = [] := by
  by_contra hlost
  have hsome := h.lost_iff.mpr hlost
  rw [hkept] at hsome
  cases hsome

theorem AlwaysWatched.main_kept (h : AlwaysWatched main progress trace)
    (hkept : progress.unverified = none) : main.unverified.isSome = false := by
  by_contra hlost
  have hsome : main.unverified.isSome := eq_true_of_ne_false hlost
  rw [← (h.withheld hsome).1, hkept] at hsome
  cases hsome

theorem quiet_clock (site : Site) (elapsed : Nat) :
    Quiet [⟨⟨site, .elapsed⟩, elapsed⟩] := by
  simp [Quiet, Query.engineCall?]

theorem AlwaysWatched.turn (h : AlwaysWatched main progress before)
    (hturn : AlwaysTurn budget index step progress trace next) :
    AlwaysWatched main next (before ++ trace) := by
  cases hturn with
  | withheld seen hseen =>
    rw [List.append_nil]
    refine ⟨h.certified, h.lost_iff, ?_, h.cleanup_iff, h.blocks, by simp [Progress.skip]⟩
    intro hmain
    obtain ⟨hsame, hskipped⟩ := h.withheld hmain
    refine ⟨hsame, fun outcome houtcome => ?_⟩
    rcases List.mem_append.mp houtcome with houtcome | houtcome
    · exact hskipped outcome houtcome
    · rw [List.mem_singleton.mp houtcome]
      rfl
  | late elapsed hkept hlate why =>
    obtain ⟨hcertified, hsame⟩ := certified_quiet h.certified
      (quiet_clock (.gate .always (index + 1)) elapsed)
    refine ⟨hcertified, ?_, ?_, ?_, ?_, by simp [Progress.skip]⟩
    · rw [hsame]
      exact h.lost_iff
    · rw [h.main_kept hkept]
      simp
    · rw [hsame]
      exact h.cleanup_iff
    · rw [hsame]
      exact h.blocks
  | ran elapsed middle run hkept hintime hrun =>
    obtain ⟨hcertified, hsame⟩ := certified_quiet h.certified
      (quiet_clock (.gate .always (index + 1)) elapsed)
    obtain ⟨hcertified, hstep⟩ := certified_step (hsame.trans (h.losses_eq hkept))
      (runStep_returns hrun).trace hcertified
    rw [List.append_assoc, List.singleton_append] at hcertified hstep
    refine ⟨hcertified, ?_, ?_, ?_, ?_, by simp [Progress.record]⟩
    · rw [hstep, record_unverified_isSome, hkept]
      by_cases hheld : run.reading = .same
      · simp [hheld]
      · simp [hheld]
    · rw [h.main_kept hkept]
      simp
    · intro seen hseen
      have hlost : run.reading ≠ .same := by
        have hsome := (record_unverified_isSome progress true progress.outcome run).mp
          (by rw [hseen]; rfl)
        simpa [hkept] using hsome
      obtain ⟨lost, hlostEq⟩ := Option.isSome_iff_exists.mp
        ((Held.lost_isSome_iff run.reading).mpr hlost)
      simp only [Progress.record, hlostEq, Option.map_some, Option.some_or,
        Option.some.injEq] at hseen
      rw [← hseen, hstep, if_neg hlost]
      simp [Unverified.seen]
    · rw [hstep, h.main_kept hkept]
      split <;> simp

theorem alwaysBlock_watched {always : List BatchStep}
    {result : Except (Option String) Progress} (hmain : MainWatched main front)
    (h : Runs (alwaysBlock always budget main) trace result) :
    (∀ cleanup, result = .ok cleanup → AlwaysWatched main cleanup (front ++ trace)) ∧
      (∀ payload, result = .error payload → Certified (front ++ trace)) := by
  have hstart : AlwaysWatched main { main with done := [] } front := by
    refine ⟨hmain.certified, hmain.lost_iff, fun _ => ⟨rfl, by simp⟩, ?_, ?_, ?_⟩
    · intro seen hseen
      rw [hmain.notCleanup seen hseen]
      constructor
      · simp
      · rintro ⟨loss, hloss, halways⟩
        rw [hmain.blocks loss hloss] at halways
        cases halways
    · intro loss hloss
      exact iff_of_true (hmain.blocks loss hloss)
        (hmain.lost_iff.mpr (List.ne_nil_of_mem hloss))
    · intro loss hloss halways
      rw [hmain.blocks loss hloss] at halways
      cases halways
  refine runs_forEach (fun _ progress trace => AlwaysWatched main progress trace) Certified ?_
    front hstart h
  intro index step progress before trace result hitem hwatched hruns
  rcases runs_alwaysStep hruns with ⟨next, rfl, hturn⟩ |
    ⟨payload, elapsed, middle, rfl, rfl, hkept, hintime, hrun⟩
  · refine ⟨?_, by simp⟩
    intro last hlast
    obtain rfl := Except.ok.inj hlast
    exact hwatched.turn hturn
  · refine ⟨by simp, fun _ _ => ?_⟩
    obtain ⟨hcertified, hsame⟩ := certified_quiet hwatched.certified
      (quiet_clock (.gate .always (index + 1)) elapsed)
    obtain ⟨-, reading, htrace⟩ := runStep_unwinds hrun
    have hstep := (certified_step (hsame.trans (hwatched.losses_eq hkept)) htrace hcertified).1
    rw [List.append_assoc, List.singleton_append] at hstep
    exact hstep

theorem MainWatched.quiet {back : Trace} (h : MainWatched main front) (hback : Quiet back) :
    MainWatched main (front ++ back) := by
  obtain ⟨hcertified, hlosses⟩ := certified_quiet h.certified hback
  exact ⟨hcertified, by rw [hlosses]; exact h.blocks, by rw [hlosses]; exact h.lost_iff,
    h.withheld_iff, h.notCleanup⟩

theorem sealRollback_quiet {outcome : BatchOutcome}
    (h : Runs (sealRollback main) trace (.ok outcome)) :
    Quiet trace ∧ outcome.withheld = main.outcome.withheld := by
  obtain ⟨hevents, houtcome, -⟩ := (sealRollback_ensures main).of_runs h
  refine ⟨fun event hevent => ?_, houtcome outcome rfl⟩
  rw [hevents event hevent]
  exact ⟨rfl, by simp⟩

/-- What a completed run knows of the target. -/
structure RunWatched (trace : Trace) (report : BatchReport) : Prop where
  certified : Certified trace
  lost_iff : report.unverified.isSome ↔ losses trace ≠ []
  cleanup_iff : report.unverified.any (·.duringCleanup) = true ↔
    ∃ loss ∈ losses trace, loss.1 = .always
  withheld_iff : report.outcome.withheld = true ↔ ∃ loss ∈ losses trace, loss.1 = .steps
  skipped : report.outcome.withheld = true →
    ∀ outcome ∈ report.always, outcome.result.isSkipped = true
  supplied : ∀ loss ∈ losses trace, loss.1 = .always → report.always ≠ []

theorem Completes.watched {op : BatchOp} {report : BatchReport}
    (h : Completes op budget trace report) : RunWatched trace report := by
  obtain ⟨main, cleanup, mainTrace, sealTrace, alwaysTrace, probeTrace, mainRuns, sealRuns,
    alwaysRuns, probeRuns, rfl, -, halwaysEq, hunverified, -⟩ := h
  obtain ⟨hquiet, hwithheld⟩ := sealRollback_quiet sealRuns
  have hmain := ((mainBlock_watched mainRuns).1 main rfl).quiet hquiet
  have halways := (alwaysBlock_watched hmain alwaysRuns).1 cleanup rfl
  have hprobe := ((sessionAfter_ensures main cleanup budget).of_runs probeRuns).1
  have hnolosses : losses (probeTrace ++
      [(⟨⟨.report, .elapsed⟩, report.elapsed⟩ : Happening)]) = [] := by
    rw [losses_append, List.append_eq_nil_iff, losses_eq_nil_iff]
    refine ⟨fun event hevent => lostAt_eq_none ?_, rfl⟩
    rcases (hprobe event hevent).2 with hrequest | hrequest | ⟨ms, -, hrequest⟩
    · rw [hrequest]
      simp
    · rw [hrequest]
      simp
    · rw [hrequest]
      simp
  have hlosses : losses (mainTrace ++ sealTrace ++ alwaysTrace ++
      (probeTrace ++ [⟨⟨.report, .elapsed⟩, report.elapsed⟩])) =
      losses (mainTrace ++ sealTrace ++ alwaysTrace) := by
    rw [losses_append _ (probeTrace ++ _), hnolosses, List.append_nil]
  have hmainLost : main.unverified.isSome ↔
      ∃ loss ∈ losses (mainTrace ++ sealTrace ++ alwaysTrace), loss.1 = .steps := by
    constructor
    · intro hlost
      have hsome : cleanup.unverified.isSome := by
        rw [(halways.withheld hlost).1]
        exact hlost
      obtain ⟨loss, hloss⟩ := List.exists_mem_of_ne_nil _ (halways.lost_iff.mp hsome)
      exact ⟨loss, hloss, (halways.blocks loss hloss).mpr hlost⟩
    · rintro ⟨loss, hloss, hsteps⟩
      exact (halways.blocks loss hloss).mp hsteps
  constructor
  · refine certified_append halways.certified ?_ fun _ => certified_of_losses_eq_nil hnolosses
    -- the probe asks the engine only where nothing was lost
    intro hlost
    rw [runs_sessionAfter_lost (halways.lost_iff.mpr hlost) probeRuns, List.nil_append]
    exact quiet_clock .report report.elapsed
  · rw [hlosses, hunverified]
    exact halways.lost_iff
  · rw [hlosses, hunverified]
    cases hseen : cleanup.unverified with
    | none =>
      rw [halways.losses_eq hseen]
      simp
    | some seen => exact halways.cleanup_iff seen hseen
  · rw [hlosses, hwithheld, hmain.withheld_iff]
    exact hmainLost
  · rw [hwithheld, hmain.withheld_iff, halwaysEq]
    exact fun hlost => (halways.withheld hlost).2
  · rw [hlosses, halwaysEq]
    exact halways.supplied

theorem Certified.after_loss {event : Happening} {back : Trace}
    (h : Certified (front ++ event :: back)) {lost : Block × Nat}
    (hlost : lostAt event = some lost) :
    (∃ sealed rest, back = sealed :: rest ∧ sealed.query = sealQuery lost.1 lost.2) ∧
      Quiet back := by
  induction front with
  | nil =>
    simp only [List.nil_append, Certified, hlost] at h
    refine ⟨?_, h.2⟩
    cases back with
    | nil => cases h.1
    | cons sealed rest => exact ⟨sealed, rest, rfl, Option.some.inj h.1⟩
  | cons first front ih =>
    simp only [List.cons_append, Certified] at h
    split at h
    · -- an earlier loss would have left no reading behind it
      have hreading := (h.2 event (by simp)).2
      rw [lostAt_eq_none hreading] at hlost
      cases hlost
    · exact ih h

theorem Certified.losses_length_le (h : Certified trace) : (losses trace).length ≤ 1 := by
  induction trace with
  | nil => exact Nat.zero_le 1
  | cons event trace ih =>
    simp only [Certified] at h
    split at h
    · rename_i block position hlost
      have hlater : losses trace = [] := (losses_eq_nil_iff trace).mpr fun later hlater =>
        lostAt_eq_none (h.2 later hlater).2
      have heq : losses (event :: trace) = (block, position) :: losses trace := by
        simp [losses, hlost]
      rw [heq, hlater]
      exact Nat.le_refl 1
    · rename_i hkept
      have heq : losses (event :: trace) = losses trace := by simp [losses, hkept]
      rw [heq]
      exact ih h

theorem Certified.eq_of_mem (h : Certified trace) {left right : Block × Nat}
    (hleft : left ∈ losses trace) (hright : right ∈ losses trace) : left = right := by
  have hlength := h.losses_length_le
  obtain ⟨only, honly⟩ := List.length_eq_one_iff.mp
    (Nat.le_antisymm hlength (List.length_pos_of_mem hleft))
  rw [honly, List.mem_singleton] at hleft hright
  rw [hleft, hright]

theorem runs_certified {op : BatchOp} {result : Except (Option String) BatchReport}
    (h : Runs (run op budget) trace result) :
    Certified trace ∧ ∀ report, result = .ok report →
      RunWatched trace report ∧ report.always.length = op.always.length := by
  rcases runs_run h with ⟨report, rfl, ⟨hcompletes⟩⟩ | ⟨payload, rfl, hmain |
    ⟨main, outcome, mainTrace, sealTrace, alwaysTrace, rfl, hmain, hseal, halways⟩⟩
  · refine ⟨hcompletes.watched.certified, ?_⟩
    intro other hother
    obtain rfl := Except.ok.inj hother
    refine ⟨hcompletes.watched, ?_⟩
    rw [hcompletes.always_eq]
    exact (alwaysBlock_recorded hcompletes.alwaysRuns).length
  · exact ⟨(mainBlock_watched hmain).2 payload rfl, by simp⟩
  · have hsealed := ((mainBlock_watched hmain).1 main rfl).quiet (sealRollback_quiet hseal).1
    exact ⟨(alwaysBlock_watched hsealed halways).2 payload rfl, by simp⟩

theorem RunWatched.rollback_of_main_lost {report : BatchReport} {loss : Block × Nat}
    (h : RunWatched trace report) (hloss : loss ∈ losses trace) (hsteps : loss.1 = .steps) :
    (∀ outcome ∈ report.always, outcome.result.isSkipped = true) ∧
      report.rollback = if report.always = [] then .notSupplied else .notAttempted := by
  have hwithheld := h.withheld_iff.mpr ⟨loss, hloss, hsteps⟩
  have hskipped := h.skipped hwithheld
  refine ⟨hskipped, ?_⟩
  cases halways : report.always with
  | nil => simp [BatchReport.rollback, halways]
  | cons first rest =>
    have hfirst : first.ok = false := by
      have hresult := hskipped first (by simp [halways])
      cases hkind : first.result <;> simp_all [StepOutcome.ok, StepResult.isSkipped]
    have hall : report.always.all (·.result.isSkipped) = true := List.all_eq_true.mpr hskipped
    rw [halways] at hall
    simp [BatchReport.rollback, BatchReport.rollbackComplete, halways, hfirst, hwithheld, hall]

theorem RunWatched.rollback_of_cleanup_lost {report : BatchReport} {loss : Block × Nat}
    (h : RunWatched trace report) (hloss : loss ∈ losses trace) (halways : loss.1 = .always) :
    report.rollback = .incomplete := by
  have hcleanup := h.cleanup_iff.mpr ⟨loss, hloss, halways⟩
  have hsupplied := h.supplied loss hloss halways
  have hkept : report.outcome.withheld = false := by
    by_contra hwithheld
    obtain ⟨other, hother, hsteps⟩ := h.withheld_iff.mp (eq_true_of_ne_false hwithheld)
    rw [h.certified.eq_of_mem hloss hother, hsteps] at halways
    cases halways
  simp [BatchReport.rollback, BatchReport.rollbackComplete, hsupplied, hcleanup, hkept]

/-- Whatever the debugger does: after the first reading that lost the target comes
its seal and then no engine call.  Lost in the main block, the cleanup is withheld;
lost in the cleanup, the rollback is incomplete. -/
theorem no_work_after_loss {σ : Type} (host : σ → (asked : Query) → asked.Answer × σ) (state : σ)
    (op : BatchOp) (budget : Nat) :
    let execution := execute host state (run op budget)
    (∀ front reading back lost, execution.trace = front ++ reading :: back →
      lostAt reading = some lost →
      (∃ sealed rest, back = sealed :: rest ∧ sealed.query = sealQuery lost.1 lost.2) ∧
        ∀ later ∈ back, later.query.engineCall? = none) ∧
    (∀ report, execution.result = .ok report →
      (∀ position, (.steps, position) ∈ losses execution.trace →
        (∀ outcome ∈ report.always, outcome.result.isSkipped = true) ∧
          report.rollback = if op.always = [] then .notSupplied else .notAttempted) ∧
      (∀ position, (.always, position) ∈ losses execution.trace →
        report.rollback = .incomplete)) ∧
    ((∀ event ∈ execution.trace, endingPanicked event = false) →
      ∃ report, execution.result = .ok report) := by
  intro execution
  have hruns : Runs (run op budget) execution.trace execution.result :=
    runs_execute host state (run op budget)
  obtain ⟨hcertified, hreport⟩ := runs_certified hruns
  refine ⟨?_, ?_, ?_⟩
  · intro front reading back lost htrace hlost
    rw [htrace] at hcertified
    obtain ⟨hsealed, hquiet⟩ := hcertified.after_loss hlost
    exact ⟨hsealed, fun later hlater => (hquiet later hlater).1⟩
  · intro report hresult
    obtain ⟨hwatched, hlength⟩ := hreport report hresult
    have hempty : report.always = [] ↔ op.always = [] := by
      rw [← List.length_eq_zero_iff, hlength, List.length_eq_zero_iff]
    simp only [← hempty]
    exact ⟨fun _ hloss => hwatched.rollback_of_main_lost hloss rfl,
      fun _ hloss => hwatched.rollback_of_cleanup_lost hloss rfl⟩
  · intro hcalm
    obtain ⟨report, hresult, -⟩ := completes_of_calm hruns hcalm
    exact ⟨report, hresult⟩

end

end WindbgMcp.Batch
