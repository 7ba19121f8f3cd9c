import WindbgMcp.Correlate.Transaction

/-! A capture transaction unwinds what it set up, whatever the driver answers.  The calls
of a window fall into five phases; the sessions its opens left behind and the instruments
its arms own are carried through them to the drains and the ends. -/
namespace WindbgMcp.Correlate
open WindbgMcp.Library WindbgMcp.Library.Program

section
variable (quoted : String → String)

def issuesOf : Event Answer → List TransactionIssue
  | ⟨.preflight, attempt⟩ => preflightIssues attempt
  | ⟨.openLayer layer, attempt⟩ => openIssues layer attempt
  | ⟨.arm layer _ identity, attempt⟩ => armIssues quoted layer identity attempt
  | ⟨.launchWorkload identity, attempt⟩ => workloadIssues identity attempt
  | ⟨.drain layer _ _, attempt⟩ => drainIssues layer attempt
  | ⟨.endSession layer _, attempt⟩ => endIssues layer attempt
  | ⟨.transition closed _, attempt⟩ => transitionIssues closed attempt

def recorded (plan : TransactionPlan) : List (Event Answer) → List TransactionIssue
  | [] => []
  | first :: rest => issuesOf quoted first ++ planIssues plan ++ rest.flatMap (issuesOf quoted)

end

def valid : Event Answer → Bool
  | ⟨.preflight, attempt⟩ => attempt.succeeded.any fun identity => identity.validate.isOk
  | ⟨.openLayer _, attempt⟩ => attempt.succeeded.any fun session => !session.sessionId.isEmpty
  | ⟨.arm layer _ identity, attempt⟩ => attempt.succeeded.any fun arm =>
    !arm.traceId.isEmpty && arm.workloadReady && arm.clock.names layer "arm" &&
      (admitIdentity identity arm.identity).isOk
  | ⟨.launchWorkload identity, attempt⟩ => attempt.succeeded.any fun workload =>
    workload.label == identity.workloadLabel
  | ⟨.drain layer _ _, attempt⟩ => attempt.succeeded.any fun drain =>
    drain.clock.names layer "drain" && drain.audit.clean
  | ⟨.endSession _ _, attempt⟩ => attempt.succeeded.any fun ack =>
    ack.ended && ack.retainedProcesses == 0
  | ⟨.transition closed _, attempt⟩ => attempt.succeeded.any fun ack =>
    (ack.leftover (closed.contains .m6Vtl1)).isEmpty

@[simp] theorem issueIf_eq_nil {holds : Bool} {issue : TransactionIssue} :
    issueIf holds issue = [] ↔ holds = false := by
  cases holds <;> simp [issueIf]

theorem issuesOf_eq_nil_iff (quoted : String → String) (event : Event Answer) :
    issuesOf quoted event = [] ↔ valid event = true := by
  obtain ⟨query, attempt⟩ := event
  cases query <;> cases attempt <;>
    simp [issuesOf, valid, preflightIssues, openIssues, armIssues, workloadIssues, drainIssues,
      endIssues, transitionIssues, issueFromAttempt, Attempt.succeeded, Attempt.cleanupSession]
  case preflight.success identity => cases identity.validate <;> simp [Except.isOk, Except.toBool]
  case arm.success layer session identity arm =>
    cases admitIdentity identity arm.identity <;> simp [Except.isOk, Except.toBool, and_assoc]
  case transition.success closed opening ack =>
    simp only [TransitionAck.clean]
    cases hleft : ack.leftover (decide (.m6Vtl1 ∈ closed)) <;> simp

section
variable {quoted : String → String} {plan : TransactionPlan} {before : List (Event Answer)}

theorem recorded_concat (h : before ≠ []) (event : Event Answer) :
    recorded quoted plan (before ++ [event]) =
      recorded quoted plan before ++ issuesOf quoted event := by
  cases before with
  | nil => exact absurd rfl h
  | cons first rest => simp [recorded]

theorem recorded_eq_nil (h : before ≠ []) :
    recorded quoted plan before = [] ↔
      planIssues plan = [] ∧ ∀ event ∈ before, valid event = true := by
  cases before with
  | nil => exact absurd rfl h
  | cons first rest =>
    simp only [recorded, List.append_eq_nil_iff, List.flatMap_eq_nil_iff, issuesOf_eq_nil_iff,
      List.forall_mem_cons]
    tauto

end

def Query.sets : Query → Bool
  | .openLayer _ | .arm _ _ _ | .launchWorkload _ => true
  | .preflight | .drain _ _ _ | .endSession _ _ | .transition _ _ => false

def Careful (quoted : String → String) (plan : TransactionPlan) (trace : List (Event Answer)) :
    Prop :=
  ∀ before event after, trace = before ++ event :: after → event.query.sets →
    recorded quoted plan before = []

/-- The report after these calls: it holds their issues and no verdict yet, and nothing
was put in place after an issue. -/
structure Tracked (quoted : String → String) (plan : TransactionPlan)
    (before : List (Event Answer)) (report : TransactionReport) : Prop where
  started : before ≠ []
  issues : report.issues = recorded quoted plan before
  pending : report.verdict = .incomplete
  careful : Careful quoted plan before

theorem Careful.concat {quoted : String → String} {plan : TransactionPlan}
    {trace : List (Event Answer)} {event : Event Answer} (h : Careful quoted plan trace)
    (hevent : event.query.sets → recorded quoted plan trace = []) :
    Careful quoted plan (trace ++ [event]) := by
  intro before other after heq hsets
  rcases List.eq_nil_or_concat after with rfl | ⟨front, last, rfl⟩
  · obtain ⟨rfl, hlast⟩ := List.append_inj' heq rfl
    cases hlast
    exact hevent hsets
  · rw [List.concat_eq_append, ← List.cons_append, ← List.append_assoc] at heq
    obtain ⟨htrace, -⟩ := List.append_inj' heq rfl
    exact h before other front htrace hsets

namespace Tracked
variable {quoted : String → String} {plan : TransactionPlan} {before : List (Event Answer)}
  {report report' : TransactionReport}

theorem same (h : Tracked quoted plan before report) (hissues : report'.issues = report.issues)
    (hverdict : report'.verdict = report.verdict) : Tracked quoted plan before report' :=
  ⟨h.started, hissues.trans h.issues, hverdict.trans h.pending, h.careful⟩

theorem concat (h : Tracked quoted plan before report) (event : Event Answer)
    (hevent : event.query.sets → report.issues = [])
    (hissues : report'.issues = report.issues ++ issuesOf quoted event)
    (hverdict : report'.verdict = report.verdict) :
    Tracked quoted plan (before ++ [event]) report' := by
  refine ⟨by simp, ?_, hverdict.trans h.pending, ?_⟩
  · rw [hissues, h.issues, recorded_concat h.started]
  · apply h.careful.concat
    intro hsets
    rw [← h.issues, hevent hsets]

end Tracked

/-! ## The calls of a window -/

structure OpenCall where
  layer : Layer
  attempt : Attempt OpenAck

def OpenCall.event (call : OpenCall) : Event Answer := ⟨.openLayer call.layer, call.attempt⟩

def OpenCall.obtained (call : OpenCall) : Option (Layer × OpenAck) :=
  call.attempt.cleanupSession.map fun session => (call.layer, session)

structure ArmCall where
  layer : Layer
  session : OpenAck
  identity : CaptureIdentity
  attempt : Attempt ArmAck

def ArmCall.event (call : ArmCall) : Event Answer :=
  ⟨.arm call.layer call.session call.identity, call.attempt⟩

structure Instrument where
  layer : Layer
  session : OpenAck
  arm : ArmAck

def ArmCall.armed (call : ArmCall) : Option Instrument :=
  call.attempt.succeeded.map fun arm => ⟨call.layer, call.session, arm⟩

structure LaunchCall where
  identity : CaptureIdentity
  attempt : Attempt WorkloadAck

def LaunchCall.event (call : LaunchCall) : Event Answer :=
  ⟨.launchWorkload call.identity, call.attempt⟩

structure DrainCall where
  instrument : Instrument
  attempt : Attempt DrainAck

def DrainCall.event (call : DrainCall) : Event Answer :=
  ⟨.drain call.instrument.layer call.instrument.session call.instrument.arm, call.attempt⟩

structure EndCall where
  ended : Layer × OpenAck
  attempt : Attempt EndAck

def EndCall.event (call : EndCall) : Event Answer :=
  ⟨.endSession call.ended.1 call.ended.2, call.attempt⟩

/-- The calls of one window, phase by phase. -/
structure WindowRun where
  layers : List Layer
  opens : List OpenCall
  arms : List ArmCall
  launch : Option LaunchCall
  drains : List DrainCall
  ends : List EndCall

namespace WindowRun

def trace (run : WindowRun) : List (Event Answer) :=
  run.opens.map OpenCall.event ++ run.arms.map ArmCall.event ++
    run.launch.toList.map LaunchCall.event ++ run.drains.map DrainCall.event ++
    run.ends.map EndCall.event

def obtained (run : WindowRun) : List (Layer × OpenAck) := run.opens.filterMap OpenCall.obtained

def armed (run : WindowRun) : List Instrument := run.arms.filterMap ArmCall.armed

/-- The window took back everything it put in place: each session obtained is ended once,
each instrument is drained once and in reverse, and no instrument is of a session the
window does not end.  Launching takes an instrument on every layer of the window. -/
structure Unwound (run : WindowRun) : Prop where
  distinct : (run.obtained.map Prod.fst).Nodup
  ended : (run.ends.map EndCall.ended).Perm run.obtained
  drained : run.drains.map DrainCall.instrument = run.armed.reverse
  within : ∀ instrument ∈ run.armed, (instrument.layer, instrument.session) ∈ run.obtained
  launched : run.launch.isSome → run.armed.map Instrument.layer = run.layers

end WindowRun

/-! ## The loops -/

theorem runs_expect_some {α β : Type} {message : String} {found : Option α} {value : α}
    (hfound : found = some value) {next : α → Driven β} {trace : List (Event Answer)}
    {result : Except String β} :
    Runs (expect message found >>= next) trace result ↔ Runs (next value) trace result := by
  rw [hfound]
  rfl

section
variable {quoted : String → String} {plan : TransactionPlan} {before trace : List (Event Answer)}
  {window : WindowState} {result : Except String WindowState}

/-- What the loop over the opens leaves behind. -/
structure OpensOf (layers : List Layer) (window last : WindowState) (calls : List OpenCall) :
    Prop where
  within : calls.map OpenCall.layer <+: layers
  opened : last.opened = window.opened ++ (calls.filterMap OpenCall.obtained).map Prod.fst
  armed : last.armed = window.armed
  reported : ∀ call ∈ calls, (last.layers.get call.layer).openAttempt = some call.attempt
  others : ∀ layer, layer ∉ calls.map OpenCall.layer →
    last.layers.get layer = window.layers.get layer
  succeeded : last.clear → ∀ call ∈ calls, call.attempt.succeeded.isSome

theorem OpensOf.nil (layers : List Layer) (window : WindowState) :
    OpensOf layers window window [] :=
  ⟨List.nil_prefix, by simp, rfl, by simp, by simp, by simp⟩

theorem OpensOf.cons {layers : List Layer} {layer : Layer} {attempt : Attempt OpenAck}
    {last : WindowState} {calls : List OpenCall}
    (h : OpensOf layers (window.recordOpen layer attempt) last calls) (hlayer : layer ∉ layers)
    (hsucceeded : last.clear → attempt.succeeded.isSome) :
    OpensOf (layer :: layers) window last (⟨layer, attempt⟩ :: calls) := by
  have hfresh : layer ∉ calls.map OpenCall.layer := fun hmem => hlayer (h.within.subset hmem)
  have hget (other : Layer) : (window.recordOpen layer attempt).layers.get other =
      if layer = other then { window.layers.get layer with openAttempt := some attempt }
      else window.layers.get other := LayerReports.get_set _ _ _ _
  refine ⟨List.cons_prefix_cons.mpr ⟨rfl, h.within⟩, ?_, h.armed, ?_, ?_, ?_⟩
  · rw [h.opened]
    cases hsession : attempt.cleanupSession <;>
      simp [WindowState.recordOpen, OpenCall.obtained, hsession]
  · intro call hcall
    apply (List.mem_cons.mp hcall).elim
    · rintro rfl
      rw [h.others _ hfresh, hget, if_pos rfl]
    · exact h.reported call
  · intro other hother
    simp only [List.map_cons, List.mem_cons, not_or] at hother
    rw [h.others other hother.2, hget, if_neg (Ne.symm hother.1)]
  · intro hclear call hcall
    apply (List.mem_cons.mp hcall).elim
    · rintro rfl
      exact hsucceeded hclear
    · exact h.succeeded hclear call

theorem clear_iff : window.clear = true ↔ window.report.issues = [] := List.isEmpty_iff

theorem recordOpen_clear {layer : Layer} {attempt : Attempt OpenAck}
    (h : (window.recordOpen layer attempt).clear) : attempt.succeeded.isSome := by
  simp only [WindowState.clear, WindowState.recordOpen, TransactionReport.raise,
    List.isEmpty_iff, List.append_eq_nil_iff, openIssues] at h
  cases attempt <;> simp_all [Attempt.succeeded, issueFromAttempt]

theorem openLayers_runs {layers : List Layer} :
    ∀ {window : WindowState} {before trace : List (Event Answer)},
      Runs (openLayers layers window) trace result → layers.Nodup → window.clear →
      Tracked quoted plan before window.report →
      ∃ last calls, result = .ok last ∧ trace = calls.map OpenCall.event ∧
        OpensOf layers window last calls ∧ Tracked quoted plan (before ++ trace) last.report := by
  induction layers with
  | nil =>
    intro window before trace hruns _ _ htracked
    obtain ⟨rfl, rfl⟩ := runs_done_iff.mp hruns
    exact ⟨window, [], rfl, rfl, .nil _ _, by simpa using htracked⟩
  | cons layer layers ih =>
    intro window before trace hruns hnodup hclear htracked
    obtain ⟨attempt, rest, rfl, hrest⟩ := runs_ask_iff.mp hruns
    obtain ⟨hlayer, hnodup⟩ := List.nodup_cons.mp hnodup
    have hnext : Tracked quoted plan (before ++ [⟨.openLayer layer, attempt⟩])
        (window.recordOpen layer attempt).report :=
      htracked.concat _ (fun _ => clear_iff.mp hclear) rfl rfl
    dsimp only at hrest
    split at hrest
    · -- the loop breaks
      obtain ⟨rfl, rfl⟩ := runs_done_iff.mp hrest
      exact ⟨_, [⟨layer, attempt⟩], rfl, rfl, (OpensOf.nil _ _).cons hlayer recordOpen_clear, hnext⟩
    · rename_i hgoes
      simp only [Bool.or_eq_true, Bool.not_eq_true', not_or, Bool.not_eq_false] at hgoes
      obtain ⟨last, calls, rfl, rfl, hopens, hlast⟩ := ih hrest hnodup hgoes.2 hnext
      refine ⟨last, ⟨layer, attempt⟩ :: calls, rfl, rfl, ?_, by simpa using hlast⟩
      exact hopens.cons hlayer fun _ => recordOpen_clear hgoes.2

/-- What the loop over the arms leaves behind. -/
structure ArmsOf (layers : List Layer) (window last : WindowState) (calls : List ArmCall) :
    Prop where
  within : calls.map ArmCall.layer <+: layers
  opened : last.opened = window.opened
  armed : last.armed = window.armed ++ (calls.filterMap ArmCall.armed).map Instrument.layer
  opens : ∀ layer, (last.layers.get layer).openAttempt = (window.layers.get layer).openAttempt
  session : ∀ call ∈ calls,
    (window.layers.get call.layer).openAttempt.bind Attempt.succeeded = some call.session
  reported : ∀ call ∈ calls, (last.layers.get call.layer).arm = some call.attempt
  others : ∀ layer, layer ∉ calls.map ArmCall.layer →
    last.layers.get layer = window.layers.get layer

theorem ArmsOf.nil (layers : List Layer) (window : WindowState) :
    ArmsOf layers window window [] :=
  ⟨List.nil_prefix, rfl, by simp, fun _ => rfl, by simp, by simp, by simp⟩

theorem recordArm_layers (identity : CaptureIdentity) (layer : Layer) (attempt : Attempt ArmAck)
    (other : Layer) :
    (window.recordArm quoted identity layer attempt).layers.get other =
      if layer = other then { window.layers.get layer with arm := some attempt }
      else window.layers.get other := by
  rw [← LayerReports.get_set]
  unfold WindowState.recordArm
  cases attempt.succeeded <;> rfl

theorem recordArm_opens (identity : CaptureIdentity) (layer : Layer) (attempt : Attempt ArmAck)
    (other : Layer) :
    ((window.recordArm quoted identity layer attempt).layers.get other).openAttempt =
      (window.layers.get other).openAttempt := by
  rw [recordArm_layers]
  split
  · rename_i h
    rw [h]
  · rfl

theorem recordArm_opened (identity : CaptureIdentity) (layer : Layer) (attempt : Attempt ArmAck) :
    (window.recordArm quoted identity layer attempt).opened = window.opened := by
  unfold WindowState.recordArm
  cases attempt.succeeded <;> rfl

theorem recordArm_armed (identity : CaptureIdentity) (layer : Layer) (attempt : Attempt ArmAck) :
    (window.recordArm quoted identity layer attempt).armed =
      window.armed ++ (attempt.succeeded.map fun _ => layer).toList := by
  unfold WindowState.recordArm
  cases attempt.succeeded <;> simp

theorem recordArm_issues (identity : CaptureIdentity) (layer : Layer) (attempt : Attempt ArmAck) :
    (window.recordArm quoted identity layer attempt).report.issues =
      window.report.issues ++ armIssues quoted layer identity attempt := by
  unfold WindowState.recordArm
  cases attempt.succeeded <;> rfl

theorem recordArm_verdict (identity : CaptureIdentity) (layer : Layer)
    (attempt : Attempt ArmAck) :
    (window.recordArm quoted identity layer attempt).report.verdict = window.report.verdict := by
  unfold WindowState.recordArm
  cases attempt.succeeded <;> rfl

theorem ArmsOf.cons {layers : List Layer} {layer : Layer} {session : OpenAck}
    {identity : CaptureIdentity} {attempt : Attempt ArmAck} {last : WindowState}
    {calls : List ArmCall}
    (h : ArmsOf layers (window.recordArm quoted identity layer attempt) last calls)
    (hlayer : layer ∉ layers)
    (hsession : (window.layers.get layer).openAttempt.bind Attempt.succeeded = some session) :
    ArmsOf (layer :: layers) window last (⟨layer, session, identity, attempt⟩ :: calls) := by
  have hfresh : layer ∉ calls.map ArmCall.layer := fun hmem => hlayer (h.within.subset hmem)
  refine ⟨List.cons_prefix_cons.mpr ⟨rfl, h.within⟩, ?_, ?_, ?_, ?_, ?_, ?_⟩
  · rw [h.opened, recordArm_opened]
  · rw [h.armed, recordArm_armed]
    cases harm : attempt.succeeded <;> simp [ArmCall.armed, harm]
  · intro other
    rw [h.opens, recordArm_opens]
  · intro call hcall
    apply (List.mem_cons.mp hcall).elim
    · rintro rfl
      exact hsession
    · intro hcall
      rw [← h.session call hcall, recordArm_opens]
  · intro call hcall
    apply (List.mem_cons.mp hcall).elim
    · rintro rfl
      rw [h.others _ hfresh, recordArm_layers, if_pos rfl]
    · exact h.reported call
  · intro other hother
    simp only [List.map_cons, List.mem_cons, not_or] at hother
    rw [h.others other hother.2, recordArm_layers, if_neg (Ne.symm hother.1)]

theorem armLayers_runs {identity : CaptureIdentity} {layers : List Layer} :
    ∀ {window : WindowState} {before trace : List (Event Answer)},
      Runs (armLayers quoted identity layers window) trace result → layers.Nodup →
      window.clear → (∀ layer ∈ layers,
        ((window.layers.get layer).openAttempt.bind Attempt.succeeded).isSome) →
      Tracked quoted plan before window.report →
      ∃ last calls, result = .ok last ∧ trace = calls.map ArmCall.event ∧
        ArmsOf layers window last calls ∧ Tracked quoted plan (before ++ trace) last.report := by
  induction layers with
  | nil =>
    intro window before trace hruns _ _ _ htracked
    obtain ⟨rfl, rfl⟩ := runs_done_iff.mp hruns
    exact ⟨window, [], rfl, rfl, .nil _ _, by simpa using htracked⟩
  | cons layer layers ih =>
    intro window before trace hruns hnodup hclear hopened htracked
    obtain ⟨session, hsession⟩ := Option.isSome_iff_exists.mp (hopened layer List.mem_cons_self)
    obtain ⟨attempt, rest, rfl, hrest⟩ := runs_ask_iff.mp ((runs_expect_some hsession).mp hruns)
    obtain ⟨hlayer, hnodup⟩ := List.nodup_cons.mp hnodup
    have hnext : Tracked quoted plan (before ++ [⟨.arm layer session identity, attempt⟩])
        (window.recordArm quoted identity layer attempt).report :=
      htracked.concat _ (fun _ => clear_iff.mp hclear) (recordArm_issues _ _ _)
        (recordArm_verdict _ _ _)
    dsimp only at hrest
    split at hrest
    · obtain ⟨rfl, rfl⟩ := runs_done_iff.mp hrest
      exact ⟨_, [⟨layer, session, identity, attempt⟩], rfl, rfl,
        (ArmsOf.nil _ _).cons hlayer hsession, hnext⟩
    · rename_i hgoes
      simp only [Bool.or_eq_true, Bool.not_eq_true', not_or, Bool.not_eq_false] at hgoes
      have hopened' : ∀ other ∈ layers, (((window.recordArm quoted identity layer attempt).layers.get
          other).openAttempt.bind Attempt.succeeded).isSome := by
        intro other hother
        rw [recordArm_opens]
        exact hopened other (List.mem_cons_of_mem _ hother)
      obtain ⟨last, calls, rfl, rfl, harms, hlast⟩ := ih hrest hnodup hgoes.2 hopened' hnext
      exact ⟨last, ⟨layer, session, identity, attempt⟩ :: calls, rfl, rfl,
        harms.cons hlayer hsession, by simpa using hlast⟩

theorem drainLayers_runs {instruments : List Instrument} :
    ∀ {window : WindowState} {before trace : List (Event Answer)},
      Runs (drainLayers (instruments.map Instrument.layer) window) trace result →
      (∀ instrument ∈ instruments,
        (window.layers.get instrument.layer).openAttempt.bind Attempt.succeeded =
            some instrument.session ∧
          (window.layers.get instrument.layer).arm.bind Attempt.succeeded =
            some instrument.arm) →
      Tracked quoted plan before window.report →
      ∃ last : WindowState, result = .ok last ∧ ∃ calls : List DrainCall,
        trace = calls.map DrainCall.event ∧
        calls.map DrainCall.instrument = instruments ∧
        (∀ layer,
          (last.layers.get layer).openAttempt = (window.layers.get layer).openAttempt) ∧
        Tracked quoted plan (before ++ trace) last.report := by
  induction instruments with
  | nil =>
    intro window before trace hruns _ htracked
    obtain ⟨rfl, rfl⟩ := runs_done_iff.mp hruns
    exact ⟨window, rfl, [], rfl, rfl, fun _ => rfl, by simpa using htracked⟩
  | cons instrument instruments ih =>
    intro window before trace hruns hheld htracked
    obtain ⟨hsession, harm⟩ := hheld instrument List.mem_cons_self
    have hruns := (runs_expect_some harm).mp ((runs_expect_some hsession).mp hruns)
    obtain ⟨attempt, rest, rfl, hrest⟩ := runs_ask_iff.mp hruns
    have hkept (other : Layer) :
        ((window.recordDrain instrument.layer attempt).layers.get other).openAttempt =
            (window.layers.get other).openAttempt ∧
          ((window.recordDrain instrument.layer attempt).layers.get other).arm =
            (window.layers.get other).arm := by
      simp only [WindowState.recordDrain, LayerReports.get_set]
      split
      · rename_i h
        rw [h]
        exact ⟨rfl, rfl⟩
      · exact ⟨rfl, rfl⟩
    obtain ⟨last, rfl, calls, rfl, rfl, hopens, hlast⟩ := ih hrest
      (by
        intro other hother
        rw [(hkept other.layer).1, (hkept other.layer).2]
        exact hheld other (List.mem_cons_of_mem _ hother))
      (htracked.concat
        ⟨.drain instrument.layer instrument.session instrument.arm, attempt⟩ nofun rfl rfl)
    refine ⟨last, rfl, ⟨instrument, attempt⟩ :: calls, rfl, rfl, ?_, by simpa using hlast⟩
    intro layer
    rw [hopens, (hkept layer).1]

theorem endLayers_runs {sessions : List (Layer × OpenAck)} :
    ∀ {window : WindowState} {before trace : List (Event Answer)},
      Runs (endLayers (sessions.map Prod.fst) window) trace result →
      (∀ session ∈ sessions,
        (window.layers.get session.1).openAttempt.bind Attempt.cleanupSession =
          some session.2) →
      Tracked quoted plan before window.report →
      ∃ (last : WindowState) (calls : List EndCall),
        result = .ok last ∧ trace = calls.map EndCall.event ∧
        calls.map EndCall.ended = sessions ∧ Tracked quoted plan (before ++ trace) last.report := by
  induction sessions with
  | nil =>
    intro window before trace hruns _ htracked
    obtain ⟨rfl, rfl⟩ := runs_done_iff.mp hruns
    exact ⟨window, [], rfl, rfl, rfl, by simpa using htracked⟩
  | cons session sessions ih =>
    intro window before trace hruns hheld htracked
    have hsession := hheld session List.mem_cons_self
    obtain ⟨attempt, rest, rfl, hrest⟩ := runs_ask_iff.mp ((runs_expect_some hsession).mp hruns)
    have hkept (other : Layer) :
        ((window.recordEnd session.1 attempt).layers.get other).openAttempt =
          (window.layers.get other).openAttempt := by
      simp only [WindowState.recordEnd, LayerReports.get_set]
      split
      · rename_i h
        rw [h]
      · rfl
    obtain ⟨last, calls, rfl, rfl, rfl, hlast⟩ := ih hrest
      (by
        intro other hother
        rw [hkept]
        exact hheld other (List.mem_cons_of_mem _ hother))
      (htracked.concat ⟨.endSession session.1 session.2, attempt⟩ nofun rfl rfl)
    exact ⟨last, ⟨session, attempt⟩ :: calls, rfl, rfl, rfl, by simpa using hlast⟩

end

/-! ## The phases of a window -/

/-- What a window holds: the sessions to end and the instruments to drain, where its
reports find them. -/
structure Held (window : WindowState) (sessions : List (Layer × OpenAck))
    (instruments : List Instrument) : Prop where
  opened : window.opened = sessions.map Prod.fst
  distinct : (sessions.map Prod.fst).Nodup
  found : ∀ session ∈ sessions,
    (window.layers.get session.1).openAttempt.bind Attempt.cleanupSession = some session.2
  armed : window.armed = instruments.map Instrument.layer
  armedDistinct : (instruments.map Instrument.layer).Nodup
  owned : ∀ instrument ∈ instruments,
    (window.layers.get instrument.layer).openAttempt.bind Attempt.succeeded =
        some instrument.session ∧
      (window.layers.get instrument.layer).arm.bind Attempt.succeeded = some instrument.arm
  within : ∀ instrument ∈ instruments, (instrument.layer, instrument.session) ∈ sessions

theorem OpenCall.mem_obtained {calls : List OpenCall} {session : Layer × OpenAck} :
    session ∈ calls.filterMap OpenCall.obtained ↔
      ∃ call ∈ calls, call.layer = session.1 ∧ call.attempt.cleanupSession = some session.2 := by
  simp only [List.mem_filterMap, OpenCall.obtained, Option.map_eq_some_iff]
  constructor
  · rintro ⟨call, hcall, found, hfound, rfl⟩
    exact ⟨call, hcall, rfl, hfound⟩
  · rintro ⟨call, hcall, hlayer, hfound⟩
    exact ⟨call, hcall, session.2, hfound, Prod.ext hlayer rfl⟩

theorem OpenCall.obtained_sublist (calls : List OpenCall) :
    ((calls.filterMap OpenCall.obtained).map Prod.fst).Sublist (calls.map OpenCall.layer) := by
  induction calls with
  | nil => exact List.Sublist.refl _
  | cons call calls ih =>
    cases hsession : call.attempt.cleanupSession with
    | none => simpa [OpenCall.obtained, hsession] using ih.cons _
    | some session => simpa [OpenCall.obtained, hsession] using ih.cons_cons call.layer

theorem ArmCall.mem_armed {calls : List ArmCall} {instrument : Instrument} :
    instrument ∈ calls.filterMap ArmCall.armed ↔
      ∃ call ∈ calls, call.layer = instrument.layer ∧ call.session = instrument.session ∧
        call.attempt.succeeded = some instrument.arm := by
  simp only [List.mem_filterMap, ArmCall.armed, Option.map_eq_some_iff]
  constructor
  · rintro ⟨call, hcall, arm, harm, rfl⟩
    exact ⟨call, hcall, rfl, rfl, harm⟩
  · rintro ⟨call, hcall, hlayer, hsession, harm⟩
    refine ⟨call, hcall, instrument.arm, harm, ?_⟩
    rw [hlayer, hsession]

theorem ArmCall.armed_sublist (calls : List ArmCall) :
    ((calls.filterMap ArmCall.armed).map Instrument.layer).Sublist
      (calls.map ArmCall.layer) := by
  induction calls with
  | nil => exact List.Sublist.refl _
  | cons call calls ih =>
    cases harm : call.attempt.succeeded with
    | none => simpa [ArmCall.armed, harm] using ih.cons _
    | some arm => simpa [ArmCall.armed, harm] using ih.cons_cons call.layer

theorem Attempt.cleanupSession_of_succeeded {attempt : Option (Attempt OpenAck)}
    {session : OpenAck} (h : attempt.bind Attempt.succeeded = some session) :
    attempt.bind Attempt.cleanupSession = some session := by
  obtain ⟨attempt, rfl, hsucceeded⟩ := Option.bind_eq_some_iff.mp h
  cases attempt with
  | success value => exact hsucceeded
  | failed => cases hsucceeded
  | timedOut => cases hsucceeded

section
variable {quoted : String → String} {plan : TransactionPlan} {before trace : List (Event Answer)}
  {window last : WindowState} {result : Except String WindowState} {layers : List Layer}
  {identity : Option CaptureIdentity}

theorem OpensOf.held {calls : List OpenCall} (h : OpensOf layers window last calls)
    (hnodup : layers.Nodup) (hopened : window.opened = []) (harmed : window.armed = []) :
    Held last (calls.filterMap OpenCall.obtained) [] where
  opened := by rw [h.opened, hopened, List.nil_append]
  distinct := hnodup.sublist ((OpenCall.obtained_sublist calls).trans h.within.sublist)
  found := by
    intro session hsession
    obtain ⟨call, hcall, hlayer, hfound⟩ := OpenCall.mem_obtained.mp hsession
    rw [← hlayer, h.reported call hcall]
    exact hfound
  armed := by rw [h.armed, harmed]; rfl
  armedDistinct := List.nodup_nil
  owned := by simp
  within := by simp

/-- Once every layer is opened and no issue exists, every open was acknowledged. -/
theorem OpensOf.acknowledged {calls : List OpenCall} (h : OpensOf layers window last calls)
    (hopened : window.opened = []) (hall : last.opened.length = layers.length)
    (hclear : last.clear) :
    last.opened = layers ∧
      ∀ layer ∈ layers,
        ((last.layers.get layer).openAttempt.bind Attempt.succeeded).isSome := by
  have hsublist := (OpenCall.obtained_sublist calls).trans h.within.sublist
  have hlast : last.opened = (calls.filterMap OpenCall.obtained).map Prod.fst := by
    rw [h.opened, hopened, List.nil_append]
  have heq := hsublist.eq_of_length (hlast ▸ hall)
  refine ⟨hlast.trans heq, ?_⟩
  intro layer hlayer
  rw [← heq] at hlayer
  obtain ⟨call, hcall, rfl⟩ := List.mem_map.mp ((OpenCall.obtained_sublist calls).subset hlayer)
  rw [h.reported call hcall]
  exact h.succeeded hclear call hcall

theorem ArmsOf.held {calls : List ArmCall} {obtained : List (Layer × OpenAck)}
    (h : ArmsOf layers window last calls) (hheld : Held window obtained [])
    (hopened : window.opened = layers) :
    Held last obtained (calls.filterMap ArmCall.armed) where
  opened := by rw [h.opened, hheld.opened]
  distinct := hheld.distinct
  found := by
    intro session hsession
    rw [h.opens]
    exact hheld.found session hsession
  armed := by rw [h.armed, hheld.armed]; rfl
  armedDistinct := by
    rw [hheld.opened] at hopened
    exact (hopened ▸ hheld.distinct).sublist
      ((ArmCall.armed_sublist calls).trans h.within.sublist)
  owned := by
    intro instrument hinstrument
    obtain ⟨call, hcall, hlayer, hsession, harm⟩ := ArmCall.mem_armed.mp hinstrument
    rw [h.opens, ← hlayer, h.session call hcall, h.reported call hcall, hsession]
    exact ⟨rfl, harm⟩
  within := by
    intro instrument hinstrument
    obtain ⟨call, hcall, hlayer, hsession, -⟩ := ArmCall.mem_armed.mp hinstrument
    have hmem : instrument.layer ∈ obtained.map Prod.fst := by
      rw [← hheld.opened, hopened, ← hlayer]
      exact h.within.subset (List.mem_map_of_mem hcall)
    obtain ⟨session, hfound, hfst⟩ := List.mem_map.mp hmem
    have hacknowledged := Attempt.cleanupSession_of_succeeded (h.session call hcall)
    have hsame := hheld.found session hfound
    rw [hfst, ← hlayer, hacknowledged] at hsame
    have heq : session = (instrument.layer, instrument.session) :=
      Prod.ext hfst ((Option.some.inj hsame).symm.trans hsession)
    rw [← heq]
    exact hfound

theorem Held.cleanup {obtained : List (Layer × OpenAck)} {armed : List Instrument}
    (h : Held window obtained armed) :
    ∃ sessions : List (Layer × OpenAck),
      sessions.map Prod.fst = cleanupOrder window.armed window.opened ∧
        sessions.Perm obtained := by
  refine ⟨armed.reverse.map (fun instrument => (instrument.layer, instrument.session)) ++
    obtained.reverse.filter fun session => !window.armed.contains session.1, ?_, ?_⟩
  · simp only [cleanupOrder, h.armed, h.opened, List.map_append, List.map_map,
      ← List.map_reverse, List.filter_map]
    rfl
  · have hobtained : obtained.Nodup := h.distinct.of_map
    apply (List.perm_ext_iff_of_nodup ?_ hobtained).mpr
    · intro session
      simp only [List.mem_append, List.mem_map, List.mem_reverse, List.mem_filter,
        Bool.not_eq_true', List.contains_eq_mem, decide_eq_false_iff_not, h.armed]
      constructor
      · rintro (⟨instrument, hinstrument, rfl⟩ | ⟨hsession, -⟩)
        · exact h.within instrument hinstrument
        · exact hsession
      · intro hsession
        by_cases harmed : ∃ instrument ∈ armed, instrument.layer = session.1
        · obtain ⟨instrument, hinstrument, hlayer⟩ := harmed
          refine Or.inl ⟨instrument, hinstrument, ?_⟩
          exact List.inj_on_of_nodup_map h.distinct (h.within instrument hinstrument) hsession hlayer
        · exact Or.inr ⟨hsession, harmed⟩
    · apply List.Nodup.append
      · have hnodup : (armed.reverse.map Instrument.layer).Nodup := by
          rw [List.map_reverse]
          exact List.nodup_reverse.mpr h.armedDistinct
        apply List.Nodup.of_map Prod.fst
        rw [List.map_map]
        exact hnodup
      · exact (List.nodup_reverse.mpr hobtained).filter _
      · intro session hleft hright
        obtain ⟨instrument, hinstrument, rfl⟩ := List.mem_map.mp hleft
        have hnot := (List.mem_filter.mp hright).2
        simp only [h.armed, Bool.not_eq_true', List.contains_eq_mem, decide_eq_false_iff_not,
          List.mem_map, not_exists, not_and] at hnot
        exact hnot instrument (List.mem_reverse.mp hinstrument) rfl

theorem Held.same {sessions : List (Layer × OpenAck)} {instruments : List Instrument}
    (h : Held window sessions instruments) (hopened : last.opened = window.opened)
    (harmed : last.armed = window.armed) (hlayers : last.layers = window.layers) :
    Held last sessions instruments where
  opened := hopened.trans h.opened
  distinct := h.distinct
  found := by rw [hlayers]; exact h.found
  armed := harmed.trans h.armed
  armedDistinct := h.armedDistinct
  owned := by rw [hlayers]; exact h.owned
  within := h.within

theorem openPhase_runs (h : Runs (openPhase layers identity window) trace result)
    (hnodup : layers.Nodup) (htracked : Tracked quoted plan before window.report) :
    ∃ last, result = .ok last ∧ ∃ calls, trace = calls.map OpenCall.event ∧
      OpensOf layers (window.enter .opening) last calls ∧ (calls ≠ [] → identity.isSome) ∧
      Tracked quoted plan (before ++ trace) last.report := by
  have hentered : Tracked quoted plan before (window.enter .opening).report := htracked.same rfl rfl
  unfold openPhase at h
  dsimp only at h
  split at h
  · rename_i hopens
    simp only [Bool.and_eq_true] at hopens
    obtain ⟨last, calls, hresult, htrace, hcalls, hlast⟩ :=
      openLayers_runs h hnodup hopens.2 hentered
    exact ⟨last, hresult, calls, htrace, hcalls, fun _ => hopens.1, hlast⟩
  · obtain ⟨rfl, rfl⟩ := runs_done_iff.mp h
    exact ⟨_, rfl, [], rfl, .nil _ _, by simp, by simpa using hentered⟩

/-- After the arms the window holds what the opens obtained and what the arms own. -/
theorem armPhase_runs {start : WindowState} {opens : List OpenCall}
    (h : Runs (armPhase quoted layers identity window) trace result)
    (hopens : OpensOf layers start window opens) (hopened : start.opened = [])
    (harmed : start.armed = []) (hidentity : opens ≠ [] → identity.isSome)
    (hnodup : layers.Nodup) (hlayers : layers ≠ [])
    (htracked : Tracked quoted plan before window.report) :
    ∃ last, result = .ok last ∧ ∃ calls, trace = calls.map ArmCall.event ∧
      Held last (opens.filterMap OpenCall.obtained) (calls.filterMap ArmCall.armed) ∧
      calls.map ArmCall.layer <+: layers ∧ (calls ≠ [] → identity.isSome) ∧
      Tracked quoted plan (before ++ trace) last.report := by
  have hheld : Held (window.enter .armed) (opens.filterMap OpenCall.obtained) [] :=
    (hopens.held hnodup hopened harmed).same rfl rfl rfl
  have hentered : Tracked quoted plan before (window.enter .armed).report := htracked.same rfl rfl
  unfold armPhase at h
  dsimp only at h
  split at h
  · rename_i harms
    simp only [Bool.and_eq_true, beq_iff_eq] at harms
    obtain ⟨hall, hacknowledged⟩ := hopens.acknowledged hopened harms.2 harms.1
    have hsome : identity.isSome := by
      apply hidentity
      rintro rfl
      have hnone := hheld.opened.symm.trans hall
      exact hlayers hnone.symm
    obtain ⟨frozen, hfrozen⟩ := Option.isSome_iff_exists.mp hsome
    obtain ⟨last, calls, hresult, htrace, hcalls, hlast⟩ := armLayers_runs
      ((runs_expect_some hfrozen).mp h) hnodup harms.1 hacknowledged hentered
    exact ⟨last, hresult, calls, htrace, hcalls.held hheld hall, hcalls.within, fun _ => hsome,
      hlast⟩
  · obtain ⟨rfl, rfl⟩ := runs_done_iff.mp h
    exact ⟨_, rfl, [], rfl, hheld, List.nil_prefix, by simp, by simpa using hentered⟩

theorem workloadPhase_runs {sessions : List (Layer × OpenAck)} {instruments : List Instrument}
    (h : Runs (workloadPhase plan layers identity window) trace result)
    (hheld : Held window sessions instruments)
    (hwithin : (instruments.map Instrument.layer).Sublist layers)
    (hidentity : instruments ≠ [] → identity.isSome) (hlayers : layers ≠ [])
    (htracked : Tracked quoted plan before window.report) :
    ∃ last : WindowState, result = .ok last ∧ ∃ launch : Option LaunchCall,
      trace = launch.toList.map LaunchCall.event ∧
      Held last sessions instruments ∧
      (launch.isSome → plan.alternate = false ∧ instruments.map Instrument.layer = layers) ∧
      Tracked quoted plan (before ++ trace) last.report := by
  unfold workloadPhase at h
  split at h
  · obtain ⟨rfl, rfl⟩ := runs_done_iff.mp h
    exact ⟨window, rfl, none, rfl, hheld, by simp, by simpa using htracked⟩
  rename_i halternate
  have hentered : Tracked quoted plan before (window.enter .workload).report := htracked.same rfl rfl
  dsimp only at h
  split at h
  · rename_i hready
    simp only [Bool.and_eq_true, beq_iff_eq] at hready
    have hall : instruments.map Instrument.layer = layers := by
      apply hwithin.eq_of_length
      rw [← hheld.armed]
      exact hready.2
    split at h
    · have hsome : identity.isSome := by
        apply hidentity
        rintro rfl
        exact hlayers hall.symm
      obtain ⟨frozen, hfrozen⟩ := Option.isSome_iff_exists.mp hsome
      obtain ⟨attempt, rest, rfl, hrest⟩ := runs_ask_iff.mp ((runs_expect_some hfrozen).mp h)
      obtain ⟨rfl, rfl⟩ := runs_done_iff.mp hrest
      refine ⟨_, rfl, some ⟨frozen, attempt⟩, rfl, hheld.same rfl rfl rfl, ?_, ?_⟩
      · exact fun _ => ⟨by simpa using halternate, hall⟩
      · exact hentered.concat ⟨.launchWorkload frozen, attempt⟩ (fun _ => clear_iff.mp hready.1) rfl rfl
    · obtain ⟨rfl, rfl⟩ := runs_done_iff.mp h
      refine ⟨_, rfl, none, rfl, hheld.same rfl rfl rfl, by simp, ?_⟩
      rw [List.append_nil]
      exact hentered.same rfl rfl
  · obtain ⟨rfl, rfl⟩ := runs_done_iff.mp h
    exact ⟨_, rfl, none, rfl, hheld.same rfl rfl rfl, by simp, by simpa using hentered⟩

theorem cleanupPhase_runs {sessions : List (Layer × OpenAck)} {instruments : List Instrument}
    (h : Runs (cleanupPhase window) trace result) (hheld : Held window sessions instruments)
    (htracked : Tracked quoted plan before window.report) :
    ∃ (last : WindowState) (drains : List DrainCall) (ends : List EndCall),
      result = .ok last ∧
      trace = drains.map DrainCall.event ++ ends.map EndCall.event ∧
      drains.map DrainCall.instrument = instruments.reverse ∧
      (ends.map EndCall.ended).Perm sessions ∧
      Tracked quoted plan (before ++ trace) last.report := by
  obtain ⟨cleanup, horder, hperm⟩ := hheld.cleanup
  have harmed : window.armed.reverse = instruments.reverse.map Instrument.layer := by
    rw [hheld.armed, List.map_reverse]
  unfold cleanupPhase at h
  dsimp only at h
  rw [← horder, harmed] at h
  have howned : ∀ instrument ∈ instruments.reverse,
      (window.layers.get instrument.layer).openAttempt.bind Attempt.succeeded =
          some instrument.session ∧
        (window.layers.get instrument.layer).arm.bind Attempt.succeeded = some instrument.arm :=
    fun instrument hinstrument => hheld.owned instrument (List.mem_reverse.mp hinstrument)
  obtain ⟨drained, front, back, rfl, ⟨drains, rfl, hinstruments, hopens, hdrained⟩, hends⟩ :=
    runs_bind_returns h fun _ _ hdrains => drainLayers_runs hdrains howned (htracked.same rfl rfl)
  have hfound : ∀ session ∈ cleanup,
      (drained.layers.get session.1).openAttempt.bind Attempt.cleanupSession =
        some session.2 := by
    intro session hsession
    rw [hopens]
    exact hheld.found session (hperm.subset hsession)
  obtain ⟨last, ends, rfl, rfl, rfl, hended⟩ := endLayers_runs hends hfound (hdrained.same rfl rfl)
  refine ⟨last, drains, ends, rfl, rfl, hinstruments, hperm, ?_⟩
  rw [← List.append_assoc]
  exact hended

theorem runWindow_runs (h : Runs (runWindow quoted plan layers identity window) trace result)
    (hopened : window.opened = []) (harmed : window.armed = []) (hnodup : layers.Nodup)
    (hlayers : layers ≠ []) (htracked : Tracked quoted plan before window.report) :
    ∃ last : WindowState, result = .ok last ∧ ∃ run : WindowRun,
      trace = run.trace ∧ run.layers = layers ∧ run.Unwound ∧
      (run.launch.isSome → plan.alternate = false) ∧
      Tracked quoted plan (before ++ trace) last.report := by
  unfold runWindow at h
  obtain ⟨opened, _, _, rfl, ⟨opens, rfl, hopens, hfrozen, htracked⟩, harming⟩ :=
    runs_bind_returns h fun _ _ hphase => openPhase_runs hphase hnodup htracked
  obtain ⟨holding, _, _, rfl, ⟨arms, rfl, hheld, hwithin, hfrozen, htracked⟩, hlaunching⟩ :=
    runs_bind_returns harming fun _ _ hphase =>
      armPhase_runs hphase hopens hopened harmed hfrozen hnodup hlayers htracked
  have hsublist := (ArmCall.armed_sublist arms).trans hwithin.sublist
  have hfrozen : arms.filterMap ArmCall.armed ≠ [] → identity.isSome := by
    intro hne
    apply hfrozen
    rintro rfl
    exact hne rfl
  obtain ⟨ran, _, _, rfl, ⟨launch, rfl, hheld, hlaunched, htracked⟩, hcleanup⟩ :=
    runs_bind_returns hlaunching fun _ _ hphase =>
      workloadPhase_runs hphase hheld hsublist hfrozen hlayers htracked
  obtain ⟨last, drains, ends, rfl, rfl, hdrained, hended, htracked⟩ :=
    cleanupPhase_runs hcleanup hheld htracked
  refine ⟨last, rfl, ⟨layers, opens, arms, launch, drains, ends⟩, ?_, rfl, ?_, ?_, ?_⟩
  · simp [WindowRun.trace]
  · exact ⟨hheld.distinct, hended, hdrained, hheld.within, fun hrun => (hlaunched hrun).2⟩
  · exact fun hrun => (hlaunched hrun).1
  · simpa using htracked

end

/-! ## The windows of a transaction -/

/-- A switch between two windows, and the window behind it if the switch was clean. -/
structure Round where
  closed : List Layer
  opening : List Layer
  attempt : Attempt TransitionAck
  window : Option WindowRun

namespace Round

def transition (round : Round) : Event Answer :=
  ⟨.transition round.closed round.opening, round.attempt⟩

def trace (round : Round) : List (Event Answer) :=
  round.transition :: round.window.elim [] WindowRun.trace

/-- A window runs only behind a transition that read clean. -/
structure Sound (plan : TransactionPlan) (round : Round) : Prop where
  read : round.window.isSome → valid round.transition = true
  layers : ∀ window ∈ round.window, window.layers = round.opening
  unwound : ∀ window ∈ round.window, window.Unwound
  launched : ∀ window ∈ round.window, window.launch.isSome → plan.alternate = false

end Round

section
variable {quoted : String → String} {plan : TransactionPlan} {before trace : List (Event Answer)}
  {capture : Capture} {result : Except String Capture} {identity : Option CaptureIdentity}

theorem windowPhase_runs {layers : List Layer}
    (h : Runs (windowPhase quoted plan identity layers capture) trace result)
    (hnodup : layers.Nodup) (hlayers : layers ≠ [])
    (htracked : Tracked quoted plan before capture.report) :
    ∃ last, result = .ok last ∧ ∃ run : WindowRun, trace = run.trace ∧ run.layers = layers ∧
      run.Unwound ∧ (run.launch.isSome → plan.alternate = false) ∧
      Tracked quoted plan (before ++ trace) last.report := by
  unfold windowPhase at h
  obtain ⟨window, front, back, rfl, ⟨run, rfl, hrun, hunwound, hlaunch, hlast⟩, hdone⟩ :=
    runs_bind_returns h fun _ _ hphase => runWindow_runs hphase rfl rfl hnodup hlayers htracked
  obtain ⟨rfl, rfl⟩ := runs_done_iff.mp hdone
  rw [List.append_nil]
  exact ⟨_, rfl, run, rfl, hrun, hunwound, hlaunch, hlast.same rfl rfl⟩

/-- What the loop over the windows behind `closed` leaves behind. -/
structure RoundsOf (plan : TransactionPlan) (closed : List Layer) (rest : List (List Layer))
    (rounds : List Round) : Prop where
  planned : rounds.map Round.opening <+: rest
  switched : rounds.map Round.closed = (closed :: rounds.map Round.opening).dropLast
  stops : ∀ round ∈ rounds.dropLast, round.window.isSome
  sound : ∀ round ∈ rounds, round.Sound plan

theorem RoundsOf.nil (closed : List Layer) (rest : List (List Layer)) :
    RoundsOf plan closed rest [] := ⟨List.nil_prefix, rfl, by simp, by simp⟩

theorem RoundsOf.cons {closed layers : List Layer} {rest : List (List Layer)} {round : Round}
    {rounds : List Round} (h : RoundsOf plan layers rest rounds) (hsound : round.Sound plan)
    (hclosed : round.closed = closed) (hopening : round.opening = layers)
    (hwindow : round.window = none → rounds = []) :
    RoundsOf plan closed (layers :: rest) (round :: rounds) where
  planned := List.cons_prefix_cons.mpr ⟨hopening, h.planned⟩
  switched := by simp [h.switched, hclosed, hopening]
  stops := by
    cases rounds with
    | nil => simp
    | cons next rounds =>
      intro other hother
      rw [List.dropLast_cons_of_ne_nil (by simp)] at hother
      apply (List.mem_cons.mp hother).elim
      · rintro rfl
        apply Option.isSome_iff_ne_none.mpr
        intro hnone
        exact absurd (hwindow hnone) (by simp)
      · exact h.stops other
  sound := List.forall_mem_cons.mpr ⟨hsound, h.sound⟩

theorem transitionPhase_runs {closed layers : List Layer}
    (h : Runs (transitionPhase closed layers capture) trace result)
    (htracked : Tracked quoted plan before capture.report) :
    ∃ last, result = .ok last ∧ ∃ attempt,
      trace = [⟨.transition closed layers, attempt⟩] ∧
      (last.clear → valid ⟨.transition closed layers, attempt⟩ = true) ∧
      Tracked quoted plan (before ++ trace) last.report := by
  obtain ⟨attempt, rest, rfl, hrest⟩ := runs_ask_iff.mp h
  obtain ⟨rfl, rfl⟩ := runs_done_iff.mp hrest
  refine ⟨_, rfl, attempt, rfl, ?_, ?_⟩
  · intro hclear
    rw [← issuesOf_eq_nil_iff quoted]
    exact (List.append_eq_nil_iff.mp (List.isEmpty_iff.mp hclear)).2
  · exact htracked.concat ⟨.transition closed layers, attempt⟩ nofun rfl rfl

theorem runWindows_runs {rest : List (List Layer)} :
    ∀ {closed : List Layer} {capture : Capture} {before trace : List (Event Answer)},
      Runs (runWindows quoted plan identity (some closed) rest capture) trace result →
      (∀ layers ∈ rest, layers.Nodup ∧ layers ≠ []) →
      Tracked quoted plan before capture.report →
      ∃ last, result = .ok last ∧ ∃ rounds, trace = rounds.flatMap Round.trace ∧
        RoundsOf plan closed rest rounds ∧ Tracked quoted plan (before ++ trace) last.report := by
  induction rest with
  | nil =>
    intro closed capture before trace h _ htracked
    obtain ⟨rfl, rfl⟩ := runs_done_iff.mp h
    exact ⟨_, rfl, [], rfl, .nil _ _, by simpa using htracked⟩
  | cons layers rest ih =>
    intro closed capture before trace h hwindows htracked
    obtain ⟨hwindow, hwindows⟩ := List.forall_mem_cons.mp hwindows
    obtain ⟨read, _, back, rfl, ⟨attempt, rfl, hvalid, hread⟩, hnext⟩ :=
      runs_bind_returns h fun _ _ hphase => transitionPhase_runs hphase htracked
    split at hnext
    · -- the transition left an issue: the plan ends there
      obtain ⟨rfl, rfl⟩ := runs_done_iff.mp hnext
      refine ⟨_, rfl, [⟨closed, layers, attempt, none⟩], rfl, ?_, by simpa using hread⟩
      exact (RoundsOf.nil layers rest).cons ⟨by simp, by simp, by simp, by simp⟩ rfl rfl
        fun _ => rfl
    rename_i hclear
    have hclear : read.clear := by simpa using hclear
    obtain ⟨ran, _, _, rfl, ⟨run, rfl, hlayers, hunwound, hlaunch, hran⟩, hlater⟩ :=
      runs_bind_returns hnext fun _ _ hphase =>
        windowPhase_runs hphase hwindow.1 hwindow.2 hread
    have hsound : Round.Sound plan ⟨closed, layers, attempt, some run⟩ :=
      ⟨fun _ => hvalid hclear, by simpa using hlayers, by simpa using hunwound,
        by simpa using hlaunch⟩
    split at hlater
    · obtain ⟨rfl, rfl⟩ := runs_done_iff.mp hlater
      refine ⟨_, rfl, [⟨closed, layers, attempt, some run⟩], by simp [Round.trace, Round.transition],
        ?_, by simpa using hran⟩
      exact (RoundsOf.nil layers rest).cons hsound rfl rfl (by simp)
    · obtain ⟨last, rfl, rounds, rfl, hrounds, hlast⟩ := ih hlater hwindows hran
      refine ⟨last, rfl, ⟨closed, layers, attempt, some run⟩ :: rounds,
        by simp [Round.trace, Round.transition], hrounds.cons hsound rfl rfl (by simp), ?_⟩
      simpa using hlast

end

/-! ## The transaction -/

structure TransactionRun where
  preflight : Attempt CaptureIdentity
  first : WindowRun
  rounds : List Round

namespace TransactionRun

def trace (run : TransactionRun) : List (Event Answer) :=
  ⟨.preflight, run.preflight⟩ :: (run.first.trace ++ run.rounds.flatMap Round.trace)

def windows (run : TransactionRun) : List WindowRun :=
  run.first :: run.rounds.filterMap Round.window

/-- What the calls of a transaction keep to, and what its report may then say. -/
structure Unwinds (quoted : String → String) (plan : TransactionPlan) (run : TransactionRun)
    (report : TransactionReport) : Prop where
  /-- The windows are the plan's, with a transition between two that follow each other. -/
  planned : run.first.layers :: run.rounds.map Round.opening <+: plan.windows
  switched : run.rounds.map Round.closed =
    (run.first.layers :: run.rounds.map Round.opening).dropLast
  layers : ∀ round ∈ run.rounds, ∀ window ∈ round.window, window.layers = round.opening
  /-- Sessions are ended and instruments drained within their window. -/
  unwound : ∀ window ∈ run.windows, window.Unwound
  /-- A window is opened only behind a transition that read clean. -/
  read : ∀ round ∈ run.rounds, round.window.isSome → valid round.transition = true
  stops : ∀ round ∈ run.rounds.dropLast, round.window.isSome
  /-- No open, arm or launch once an issue exists. -/
  careful : ∀ before event after, run.trace = before ++ event :: after → event.query.sets →
    recorded quoted plan before = []
  /-- The workload is launched only when all three layers are armed. -/
  launched : ∀ window ∈ run.windows, window.launch.isSome →
    window.armed.map Instrument.layer = armOrder
  /-- The issues are those of the calls, and perhaps one of the clock. -/
  issues : ∃ clock, report.issues = recorded quoted plan run.trace ++ clock
  passed : report.verdict = .pass → ∀ event ∈ run.trace, valid event = true

end TransactionRun

section
variable {quoted : String → String} {plan : TransactionPlan} {before trace : List (Event Answer)}

theorem clockPhase_runs {capture : Capture} {result : Except String TransactionReport}
    (h : Runs (clockPhase plan capture) trace result) :
    ∃ report, result = .ok report ∧ trace = [] ∧ report.verdict = capture.report.verdict ∧
      ∃ clock, report.issues = capture.report.issues ++ clock := by
  unfold clockPhase at h
  split at h
  · obtain ⟨rfl, rfl⟩ := runs_done_iff.mp h
    exact ⟨_, rfl, rfl, rfl, [], by simp⟩
  obtain ⟨admission, hadmission⟩ := admitClock_total capture.brackets plan.maxSkewTicks
  rw [hadmission] at h
  cases admission with
  | ok clock =>
    obtain ⟨rfl, rfl⟩ := runs_done_iff.mp h
    exact ⟨_, rfl, rfl, rfl, [], by simp⟩
  | error message =>
    obtain ⟨rfl, rfl⟩ := runs_done_iff.mp h
    exact ⟨_, rfl, rfl, rfl, _, rfl⟩

theorem idled_verdict {capture : Capture} :
    (capture.idled plan).report.verdict = capture.report.verdict := by
  unfold Capture.idled
  split <;> rfl

theorem idled_issues {capture : Capture} :
    (capture.idled plan).report.issues = capture.report.issues := by
  unfold Capture.idled
  split <;> rfl

theorem conclude_issues {capture : Capture} {report : TransactionReport} :
    (capture.conclude report).issues = report.issues := by
  unfold Capture.conclude
  dsimp only
  split <;> rfl

theorem conclude_passes {capture : Capture} {report : TransactionReport}
    (h : (capture.conclude report).verdict = .pass) :
    report.verdict = .pass ∨ report.issues = [] := by
  unfold Capture.conclude at h
  dsimp only at h
  split at h
  · rename_i hconcludes
    simp only [Bool.and_eq_true, List.isEmpty_iff] at hconcludes
    exact Or.inr hconcludes.1.1.1
  · exact Or.inl h

theorem plan_windows (plan : TransactionPlan) :
    ∀ layers ∈ plan.windows, layers.Nodup ∧ layers ≠ [] := by
  unfold TransactionPlan.windows
  cases plan.alternate <;> decide

theorem tracked_preflight (quoted : String → String) (plan : TransactionPlan)
    (preflight : Attempt CaptureIdentity) :
    Tracked quoted plan [⟨.preflight, preflight⟩]
      (((initialReport plan preflight).raise (preflightIssues preflight)).raise
        (planIssues plan)) := by
  refine ⟨by simp, by simp [recorded, issuesOf, initialReport, TransactionReport.raise], rfl, ?_⟩
  intro before event after heq hsets
  cases before with
  | nil =>
    cases heq
    cases hsets
  | cons => simp at heq

theorem runWindows_first {first : List Layer} {rest : List (List Layer)} {capture : Capture}
    {identity : Option CaptureIdentity} {result : Except String Capture}
    (h : Runs (runWindows quoted plan identity none (first :: rest) capture) trace result)
    (hwindows : ∀ layers ∈ first :: rest, layers.Nodup ∧ layers ≠ [])
    (htracked : Tracked quoted plan before capture.report) :
    ∃ last, result = .ok last ∧ ∃ (run : WindowRun) (rounds : List Round),
      trace = run.trace ++ rounds.flatMap Round.trace ∧ run.layers = first ∧ run.Unwound ∧
      (run.launch.isSome → plan.alternate = false) ∧ RoundsOf plan first rest rounds ∧
      Tracked quoted plan (before ++ trace) last.report := by
  obtain ⟨hfirst, hrest⟩ := List.forall_mem_cons.mp hwindows
  obtain ⟨ran, _, _, rfl, ⟨run, rfl, hlayers, hunwound, hlaunch, hran⟩, hlater⟩ :=
    runs_bind_returns h fun _ _ hphase => windowPhase_runs hphase hfirst.1 hfirst.2 htracked
  split at hlater
  · obtain ⟨rfl, rfl⟩ := runs_done_iff.mp hlater
    exact ⟨_, rfl, run, [], rfl, hlayers, hunwound, hlaunch, .nil _ _, by simpa using hran⟩
  · obtain ⟨last, rfl, rounds, rfl, hrounds, hlast⟩ := runWindows_runs hlater hrest hran
    exact ⟨last, rfl, run, rounds, rfl, hlayers, hunwound, hlaunch, hrounds, by simpa using hlast⟩

/-- Only the plan of one window launches, and that window has all three layers. -/
theorem launched_armOrder {run : TransactionRun}
    (hplanned : run.first.layers :: run.rounds.map Round.opening <+: plan.windows)
    (hunwound : run.first.Unwound) (hfirst : run.first.launch.isSome → plan.alternate = false)
    (hsound : ∀ round ∈ run.rounds, round.Sound plan) :
    ∀ window ∈ run.windows, window.launch.isSome →
      window.armed.map Instrument.layer = armOrder := by
  intro window hwindow hlaunch
  have halternate : plan.alternate = false := by
    rcases List.mem_cons.mp hwindow with rfl | hlater
    · exact hfirst hlaunch
    · obtain ⟨round, hround, hsome⟩ := List.mem_filterMap.mp hlater
      exact (hsound round hround).launched window hsome hlaunch
  simp only [TransactionPlan.windows, halternate, Bool.false_eq_true, if_false,
    List.cons_prefix_cons, List.prefix_nil, List.map_eq_nil_iff] at hplanned
  obtain ⟨hlayers, hrounds⟩ := hplanned
  simp only [TransactionRun.windows, hrounds, List.filterMap_nil, List.mem_singleton] at hwindow
  rw [hwindow, ← hlayers]
  exact hunwound.launched (hwindow ▸ hlaunch)

theorem runTransaction_runs {result : Except String TransactionReport}
    (h : Runs (runTransaction quoted plan) trace result) :
    ∃ report run, result = .ok report ∧ trace = run.trace ∧
      TransactionRun.Unwinds quoted plan run report := by
  obtain ⟨preflight, rest, rfl, hrest⟩ := runs_ask_iff.mp h
  obtain ⟨first, others, hplan⟩ : ∃ first others, plan.windows = first :: others := by
    unfold TransactionPlan.windows
    cases plan.alternate
    · exact ⟨_, _, rfl⟩
    · exact ⟨_, _, rfl⟩
  have hwindows := plan_windows plan
  dsimp only at hrest
  rw [hplan] at hrest hwindows
  obtain ⟨capture, _, _, rfl, ⟨window, rounds, rfl, hlayers, hunwound, hlaunch, hrounds, hran⟩,
      hclose⟩ :=
    runs_bind_returns hrest fun _ _ hphase =>
      runWindows_first hphase hwindows (tracked_preflight quoted plan preflight)
  obtain ⟨report, _, _, rfl, ⟨rfl, hverdict, clock, hissues⟩, hdone⟩ :=
    runs_bind_returns hclose fun _ _ hphase => clockPhase_runs hphase
  obtain ⟨rfl, rfl⟩ := runs_done_iff.mp hdone
  rw [idled_verdict, hran.pending] at hverdict
  rw [idled_issues, hran.issues] at hissues
  refine ⟨_, ⟨preflight, window, rounds⟩, rfl, by simp [TransactionRun.trace], ?_⟩
  have hplanned : window.layers :: rounds.map Round.opening <+: plan.windows := by
    rw [hplan, hlayers]
    exact List.cons_prefix_cons.mpr ⟨rfl, hrounds.planned⟩
  constructor
  case planned => exact hplanned
  case switched =>
    rw [hlayers]
    exact hrounds.switched
  case layers => exact fun round hround => (hrounds.sound round hround).layers
  case unwound =>
    intro ran hmem
    rcases List.mem_cons.mp hmem with rfl | hlater
    · exact hunwound
    · obtain ⟨round, hround, hsome⟩ := List.mem_filterMap.mp hlater
      exact (hrounds.sound round hround).unwound ran hsome
  case read => exact fun round hround => (hrounds.sound round hround).read
  case stops => exact hrounds.stops
  case careful => exact hran.careful
  case launched => exact launched_armOrder hplanned hunwound hlaunch hrounds.sound
  case issues =>
    refine ⟨clock, ?_⟩
    rw [conclude_issues]
    exact hissues
  case passed =>
    intro hpass
    rcases conclude_passes hpass with hverdict' | hnone
    · exact absurd (hverdict.symm.trans hverdict') (by decide)
    · -- the report has no issue, so no call of the transaction raised one
      rw [hissues] at hnone
      exact ((recorded_eq_nil hran.started).mp (List.append_eq_nil_iff.mp hnone).1).2

/-- A capture transaction always unwinds what it set up: for every plan and every driver
it returns, and its calls and its report keep to `Unwinds`. -/
theorem transaction_unwinds (quoted : String → String) (plan : TransactionPlan) {σ : Type}
    (driver : σ → (query : Query) → Answer query × σ) (state : σ) :
    ∃ report run, (execute driver state (runTransaction quoted plan)).result = .ok report ∧
      (execute driver state (runTransaction quoted plan)).trace = TransactionRun.trace run ∧
      run.Unwinds quoted plan report := by
  apply runTransaction_runs
  exact runs_execute driver state (runTransaction quoted plan)

end

end WindbgMcp.Correlate
