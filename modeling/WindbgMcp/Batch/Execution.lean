import WindbgMcp.Batch.Debuggee

/-! The batch executor: one step with its assertions, the two blocks, the seal
between them, the state probe, and the report. -/
namespace WindbgMcp.Batch

open Library Server

def nanosPerMs : Nat := 1000000

def rollbackReserve : Nat := 30000 * nanosPerMs

def minStepBudgetMs : Nat := 1000

def overrunAllowance : Nat := 4 * minStepBudgetMs * nanosPerMs

def minBatchMs : Nat := 2 * minStepBudgetMs

def execWaitMs : Nat := 60000

def stepOutputChars : Nat := 1500
def failedOutputChars : Nat := 8000

inductive StepResult where
  | ok
  | failed (why : String)
  | unmet (why : String)
  | skipped (why : String)
deriving DecidableEq, Repr

def StepResult.isSkipped : StepResult → Bool
  | .skipped _ => true
  | _ => false

structure StepOutcome where
  position : Nat
  label : String
  rendered : String
  changes : Option String
  result : StepResult
  output : String
  refused : Bool
  cutShort : Bool
  targetGone : Bool
deriving DecidableEq, Repr

namespace StepOutcome

def skipped (position : Nat) (step : BatchStep) (why : String) : StepOutcome where
  position := position
  label := step.label
  rendered := step.action.rendered
  changes := none
  result := .skipped why
  output := ""
  refused := false
  cutShort := false
  targetGone := false

def ok (outcome : StepOutcome) : Bool := outcome.result == .ok

end StepOutcome

inductive BatchOutcome where
  | committed
  | failed (position : Nat)
  | timedOut (position : Nat)
  | abandoned (position : Nat)
  | interrupted (position : Nat)
  | targetGone (position : Nat)
  | targetReplaced (position : Nat)
  | targetUncertain (position : Nat)
deriving DecidableEq, Repr

def BatchOutcome.position? : BatchOutcome → Option Nat
  | .committed => none
  | .failed position | .timedOut position | .abandoned position | .interrupted position
  | .targetGone position | .targetReplaced position | .targetUncertain position => some position

/-- The outcomes for which the `always` block is dropped on purpose. -/
def BatchOutcome.withheld : BatchOutcome → Bool
  | .targetReplaced _ | .targetUncertain _ => true
  | _ => false

inductive Rollback where
  | notSupplied
  | complete
  | incomplete
  | notAttempted
deriving DecidableEq, Repr

inductive SessionAfter where
  | stopped (ip : String)
  | running (why : String)
  | detached (cause : String)
  | ended (cause : String)
  | uncertain (why : String)
deriving DecidableEq, Repr

structure Unverified where
  identified : Bool
  duringCleanup : Bool
  why : String
  cause : String
deriving DecidableEq, Repr

structure BatchReport where
  steps : List StepOutcome
  always : List StepOutcome
  outcome : BatchOutcome
  unverified : Option Unverified
  after : SessionAfter
  budget : Nat
  elapsed : Nat
deriving DecidableEq, Repr

namespace BatchReport

def rollbackComplete (report : BatchReport) : Bool :=
  report.always.all StepOutcome.ok && !report.unverified.any (·.duringCleanup)

def rollback (report : BatchReport) : Rollback :=
  if report.always.isEmpty then .notSupplied
  else if report.rollbackComplete then .complete
  else
    let untouched := report.always.all (·.result.isSkipped)
    if report.outcome.withheld && untouched then .notAttempted else .incomplete

end BatchReport

def clip (text : String) (limit : Nat) : String :=
  let text := (Text.trimEnd text).toList
  if text.length ≤ limit then String.ofList text
  else
    String.ofList (text.take limit) ++ "\n… " ++ toString (text.length - limit) ++
      " more characters not shown"

def reportCap : StepResult → Nat
  | .ok => stepOutputChars
  | _ => failedOutputChars

def stepBudgetMs (elapsed deadline : Nat) : Nat :=
  min ((deadline - elapsed) / nanosPerMs) 0xffffffff

/-! ## Captured values -/

abbrev Bindings := List (String × String)

def Bindings.get (bound : Bindings) (name : String) : Option String :=
  (bound.find? (·.1 == name)).map (·.2)

/-! ## Assertions -/

inductive CheckFailed where
  | unmet (why : String)
  | expired (why : String)
deriving DecidableEq, Repr

/-- The value of one side of an `eval` check, and whether a break has now reached
the step. -/
def evalValue (site : Site) (expr : String) (deadline : Nat) (cutShort : Bool) :
    Executor (Except CheckFailed Nat × Bool) := do
  let elapsed ← Debuggee.elapsed site
  if deadline ≤ elapsed then
    pure (.error (.expired
      ("the batch ran out of time before `? (" ++ expr ++ ")` could be evaluated")), cutShort)
  else do
    let elapsed ← Debuggee.elapsed site
    let budgetMs := max (stepBudgetMs elapsed deadline) minStepBudgetMs
    let ran ← guarded (Debuggee.engine site (.command ("? (" ++ expr ++ ")") budgetMs))
    match ran with
    | .error why =>
      pure (.error (.unmet ("`? (" ++ expr ++ ")` failed: " ++ answered why)), cutShort)
    | .ok ran =>
      match parseEval ran.output with
      | some value => pure (.ok value, cutShort || ran.interrupted)
      | none =>
        pure (.error (.unmet ("`? (" ++ expr ++ ")` printed no value; the debugger answered: " ++
          Text.trim ran.output)), cutShort || ran.interrupted)

def evaluate (site : Site) (check : Check) (output : String) (deadline : Nat)
    (cutShort : Bool) : Executor (Except CheckFailed Unit × Bool) :=
  let holds (text : String) : Bool :=
    Text.contains (Text.toAsciiLowercase output) (Text.toAsciiLowercase text)
  match check with
  | .contains text =>
    pure (if holds text then .ok ()
      else .error (.unmet ("the output does not contain \"" ++ text ++ "\"")), cutShort)
  | .notContains text =>
    pure (if holds text then
        .error (.unmet ("the output contains \"" ++ text ++ "\", which it must not"))
      else .ok (), cutShort)
  | .eval expr equals => do
    let (left, cutShort) ← evalValue site expr deadline cutShort
    match left with
    | .error why => pure (.error why, cutShort)
    | .ok left => do
      let (right, cutShort) ← evalValue site equals deadline cutShort
      match right with
      | .error why => pure (.error why, cutShort)
      | .ok right =>
        pure (if left = right then .ok ()
          else .error (.unmet ("`" ++ expr ++ "` is " ++ fmtAddr left ++ " (" ++ Text.hex left ++
            "), `" ++ equals ++ "` is " ++ fmtAddr right ++ " (" ++ Text.hex right ++ ")")),
          cutShort)

/-- The assertions in order, up to the first that does not hold or cannot be
checked. -/
def runChecks (site : Site) (deadline : Nat) (reading : Held) (targetGone : Bool)
    (output : String) : List Check → Bool → Executor (StepResult × Bool)
  | [], cutShort => pure (.ok, cutShort)
  | check :: checks, cutShort =>
    if targetGone && check.needsTheEngine then
      pure (.failed "this step ended the target, so its assertions could not be checked — there is nothing left to ask",
        cutShort)
    else if reading ≠ .same ∧ check.needsTheEngine = true then
      pure (.failed "the debug target changed while this step was running, so its assertions could not be checked against the target the step was aimed at",
        cutShort)
    else do
      let elapsed ← Debuggee.elapsed site
      if deadline ≤ elapsed then
        pure (.failed "the batch ran out of time before this step's assertions could be checked",
          cutShort)
      else do
        let (verdict, cutShort) ← evaluate site check output deadline cutShort
        match verdict with
        | .ok () => runChecks site deadline reading targetGone output checks cutShort
        | .error (.unmet why) => pure (.unmet why, cutShort)
        | .error (.expired why) => pure (.failed why, cutShort)

/-! ## One step -/

/-- The call an action makes, under the step's budget. -/
def StepAction.call (action : StepAction) (budgetMs : Nat) : EngineCall :=
  let waitMs (requested : Option Nat) : Nat :=
    max (min (requested.getD execWaitMs) budgetMs) minStepBudgetMs
  match action with
  | .command line => .command line budgetMs
  | .resume line timeoutMs => .resume line (waitMs timeoutMs)
  | .runTo address timeoutMs => .runTo address (waitMs timeoutMs)
  | .eval expr => .command ("? " ++ expr) budgetMs
  | .readMemory address size => .readMemory address size budgetMs
  | .poolChunk address refresh => .pool (.chunk address (refresh.getD false)) budgetMs
  | .poolFindTag tag paged refresh stopAfterMatches limit =>
    .pool (.findTag tag paged (refresh.getD false) stopAfterMatches (clampRows limit findTagRows))
      budgetMs
  | .poolCensus refresh limit =>
    .pool (.census (refresh.getD false) (clampRows limit censusRows)) budgetMs

def bindCapture (capture : Option String) (rendered output : String) (bound : Bindings) :
    StepResult → StepResult × Bindings
  | .ok =>
    match capture with
    | none => (.ok, bound)
    | some name =>
      match parseEval output with
      | some value => (.ok, (name, Text.hex value) :: bound)
      | none =>
        (.failed ("`" ++ rendered ++ "` printed no value to capture as `" ++ name ++
          "`. The debugger answered:\n" ++ Text.trim output), bound)
  | result => (result, bound)

structure StepRun where
  outcome : StepOutcome
  reading : Held
  bound : Bindings
deriving DecidableEq, Repr

def sealIfLost (site : Site) (reading : Held) : Executor Unit :=
  if reading = .same then pure ()
  else do
    let _ ← Debuggee.sealing site .targetLost
    pure ()

/-- What is left of a step whose action the debugger refused. -/
def finishRefused (block : Block) (step : BatchStep) (position : Nat) (bound : Bindings)
    (alreadyGone : Bool) (action : StepAction) (reading : Held) (why : Failed) :
    Executor StepRun := do
  let result := StepResult.failed why.message
  let outcome (targetGone : Bool) : StepOutcome :=
    { position
      label := step.label
      rendered := action.rendered
      changes := actionMutation action
      result
      output := clip (why.engineOutput.getD "") (reportCap result)
      refused := true
      cutShort := false
      targetGone }
  if alreadyGone then pure ⟨outcome false, reading, bound⟩
  else do
    let holding ← Debuggee.hasTarget (.ending block position)
    pure ⟨outcome (holding == some false), reading, bound⟩

/-- What is left of a step whose action ran: its assertions and its capture. -/
def finishRan (block : Block) (step : BatchStep) (position deadline : Nat) (bound : Bindings)
    (alreadyGone : Bool) (action : StepAction) (checks : List Check) (reading : Held)
    (ran : Ran) : Executor StepRun := do
  let targetGone := !alreadyGone && ran.targetGone
  let (result, cutShort) ← runChecks (.assertion block position) deadline reading targetGone
    ran.output checks ran.interrupted
  let captured := bindCapture step.capture action.rendered ran.output bound result
  pure
    { outcome :=
        { position
          label := step.label
          rendered := action.rendered
          changes := actionMutation action
          result := captured.1
          output := clip ran.output (reportCap captured.1)
          refused := false
          cutShort
          targetGone }
      reading
      bound := captured.2 }

def finishStep (block : Block) (step : BatchStep) (position deadline : Nat) (bound : Bindings)
    (alreadyGone : Bool) (action : StepAction) (checks : List Check) (reading : Held) :
    Except Failed Ran → Executor StepRun
  | .error why => finishRefused block step position bound alreadyGone action reading why
  | .ok ran => finishRan block step position deadline bound alreadyGone action checks reading ran

def runStep (block : Block) (step : BatchStep) (position deadline : Nat) (bound : Bindings)
    (alreadyGone : Bool) : Executor StepRun := do
  let elapsed ← Debuggee.elapsed (.action block position)
  let budgetMs := max (stepBudgetMs elapsed deadline) minStepBudgetMs
  match step.substituted bound.get with
  | .error why => pure ⟨.skipped position step why, .same, bound⟩
  | .ok (action, checks) => do
    let ran ← guarded (Debuggee.engine (.action block position) (action.call budgetMs))
    let reading ← held (.reading block position)
    sealIfLost (.reading block position) reading
    finishStep block step position deadline bound alreadyGone action checks reading ran

/-! ## The two blocks -/

structure Progress where
  bound : Bindings
  outcome : BatchOutcome
  ended : Bool
  unverified : Option Unverified
  done : List StepOutcome
deriving DecidableEq, Repr

/-- What a later step is told when the batch stopped at an earlier one. -/
def BatchOutcome.skipReason : BatchOutcome → Option String
  | .committed => none
  | .failed position =>
    some ("step " ++ toString position ++ " failed, so the batch stopped there")
  | .timedOut position => some ("the batch ran out of time at step " ++ toString position)
  | .abandoned position =>
    some ("the session was torn down while the batch was running, so it stopped at step " ++
      toString position ++ " and went to its rollback")
  | .interrupted position =>
    some ("the batch was interrupted while it was running, so it stopped at step " ++
      toString position ++ " and went to its rollback")
  | .targetGone position =>
    some ("step " ++ toString position ++
      " ended the target, so there was nothing left to run this against")
  | .targetReplaced position =>
    some ("step " ++ toString position ++
      " replaced the debug target, so the batch stopped there rather than running this against something else")
  | .targetUncertain position =>
    some ("after step " ++ toString position ++
      " nothing could certify that the debugger is still holding the target this batch's steps ran against, so it stopped there rather than running this against something it could not identify")

/-- What a reading other than `same` says, and whether it identified a target. -/
def Held.lost : Held → Option (Bool × String)
  | .same => none
  | .replaced why => some (true, why)
  | .uncertain why => some (false, why)

def Unverified.seen (duringCleanup : Bool) (rendered : String) (lost : Bool × String) :
    Unverified :=
  ⟨lost.1, duringCleanup, lost.2, "`" ++ rendered ++ "`"⟩

/-- The outcome after a main step has run, by rank: a lost target, an ended one, a
break, and then the step's own result. -/
def rankOutcome (position stepsDeadline : Nat) (done : StepOutcome) (reading : Held) :
    Executor BatchOutcome :=
  match reading.lost with
  | some (true, _) => pure (.targetReplaced position)
  | some (false, _) => pure (.targetUncertain position)
  | none =>
    if done.targetGone then pure (.targetGone position)
    else if done.cutShort then do
      let abandoned ← Debuggee.abandoned (.gate .steps position)
      pure (if abandoned then .abandoned position else .interrupted position)
    else
      match done.result with
      | .ok => pure .committed
      | .unmet _ => pure (.failed position)
      | _ => do
        let elapsed ← Debuggee.elapsed (.gate .steps position)
        pure (if stepsDeadline ≤ elapsed then .timedOut position else .failed position)

def Progress.skip (progress : Progress) (outcome : BatchOutcome) (position : Nat)
    (step : BatchStep) (why : String) : Progress :=
  { progress with outcome := outcome, done := progress.done ++ [.skipped position step why] }

def mainStep (stepsDeadline : Nat) (index : Nat) (step : BatchStep) (progress : Progress) :
    Executor Progress :=
  let position := index + 1
  match progress.outcome.skipReason with
  | some why => pure (progress.skip progress.outcome position step why)
  | none => do
    let abandoned ← Debuggee.abandoned (.gate .steps position)
    if abandoned then
      pure (progress.skip (.abandoned position) position step
        "the session was torn down before this step started")
    else do
      let interrupted ← Debuggee.interrupted (.gate .steps position)
      if interrupted then
        pure (progress.skip (.interrupted position) position step
          "the batch was interrupted before this step started")
      else do
        let elapsed ← Debuggee.elapsed (.gate .steps position)
        if stepsDeadline ≤ elapsed then
          pure (progress.skip (.timedOut position) position step
            "the batch ran out of time before this step started")
        else do
          let run ← runStep .steps step position stepsDeadline progress.bound progress.ended
          let outcome ← rankOutcome position stepsDeadline run.outcome run.reading
          pure
            { bound := run.bound
              outcome
              ended := progress.ended || run.outcome.targetGone
              unverified := (run.reading.lost.map (.seen false run.outcome.rendered)).or
                progress.unverified
              done := progress.done ++ [run.outcome] }

def withheldReason (seen : Unverified) : String :=
  if seen.identified then
    "the debug target was replaced while this batch was running, so its cleanup was not attempted: "
      ++ seen.why ++
      ". Running it would have applied the restore to a target that never had the mutation, at an address that means something else there. Whatever the steps above changed is still in place on the original target, which this session can no longer reach."
  else
    "nothing could certify that the debugger is still holding the target this batch's steps ran against, so its cleanup was not attempted: "
      ++ seen.why ++
      ". A restore that cannot be aimed at the target the steps ran against is worse than one that is missing, and this is the missing one: nothing was undone. Whatever the steps above changed is very likely still in place on a target that is very likely still there."

def alwaysStep (budget : Nat) (index : Nat) (step : BatchStep) (progress : Progress) :
    Executor Progress :=
  let position := index + 1
  match progress.unverified with
  | some seen => pure (progress.skip progress.outcome position step (withheldReason seen))
  | none => do
    let elapsed ← Debuggee.elapsed (.gate .always position)
    if budget ≤ elapsed then
      pure (progress.skip progress.outcome position step
        "the batch ran out of time before this cleanup step started")
    else do
      let run ← runStep .always step position budget progress.bound progress.ended
      pure
        { progress with
          bound := run.bound
          ended := progress.ended || run.outcome.targetGone
          unverified := (run.reading.lost.map (.seen true run.outcome.rendered)).or
            progress.unverified
          done := progress.done ++ [run.outcome] }

/-! ## The state probe and the report -/

def releasesTheTarget (outcome : StepOutcome) : Bool :=
  outcome.changes.any (Text.contains · "the debug target")

def probeState (steps always : List StepOutcome) (budget : Nat) : Executor SessionAfter :=
  let visited := steps ++ always
  match (visited.filter (!·.result.isSkipped)).find? fun s => s.targetGone || releasesTheTarget s with
  | some step =>
    let cause := "`" ++ step.rendered ++ "`"
    pure (if releasesTheTarget step then .detached cause else .ended cause)
  | none => do
    let ranOn := visited.any fun s => s.changes.any (Text.contains · "execution") && !s.ok
    let running ← guarded (do pure (.ok (← Debuggee.running .probe)))
    if running = .ok (some true) then
      pure (.running "the engine has been told to run and has not been pumped to a stop")
    else do
      let elapsed ← Debuggee.elapsed .probe
      let budgetMs := max (stepBudgetMs elapsed budget) minStepBudgetMs
      let answer ← guarded (Debuggee.engine .probe (.command "? @$ip" budgetMs))
      match answer with
      | .ok ran =>
        match parseEval ran.output with
        | some ip => pure (.stopped (fmtAddr ip))
        | none =>
          pure (.uncertain ("`? @$ip` printed no address; the debugger answered: " ++
            Text.trim ran.output))
      | .error why =>
        pure (if ranOn then
            .running ("a step resumed the target and did not report a stop, and `? @$ip` failed: "
              ++ answered why)
          else .uncertain ("`? @$ip` failed: " ++ answered why))

def stepsDeadline (budget : Nat) : Nat := budget - min rollbackReserve (budget / 2)

def mainBlock (steps : List BatchStep) (budget : Nat) : Executor Progress :=
  Program.forEach (mainStep (stepsDeadline budget)) 0 steps ⟨[], .committed, false, none, []⟩

/-- The rollback's own seal, which a batch that lost its target has already taken.
A break it finds pending was reported by no step. -/
def sealRollback (main : Progress) : Executor BatchOutcome :=
  match main.unverified with
  | some _ => pure main.outcome
  | none => do
    let brokeLate ← Debuggee.sealing .seal .rollback
    pure (if main.outcome = .committed ∧ brokeLate = true then
      .interrupted (max main.done.length 1) else main.outcome)

def alwaysBlock (always : List BatchStep) (budget : Nat) (main : Progress) : Executor Progress :=
  Program.forEach (alwaysStep budget) 0 always { main with done := [] }

def sessionAfter (main cleanup : Progress) (budget : Nat) : Executor SessionAfter :=
  match cleanup.unverified with
  | some seen =>
    pure (if seen.identified then .detached seen.cause
      else .uncertain ("the batch could no longer certify its target while " ++ seen.cause ++
        " was running: " ++ seen.why))
  | none => probeState main.done cleanup.done budget

def run (op : BatchOp) (budget : Nat) : Executor BatchReport := do
  let main ← mainBlock op.steps budget
  let outcome ← sealRollback main
  let cleanup ← alwaysBlock op.always budget main
  let after ← sessionAfter main cleanup budget
  let elapsed ← Debuggee.elapsed .report
  pure ⟨main.done, cleanup.done, outcome, cleanup.unverified, after, budget, elapsed⟩

end WindbgMcp.Batch
