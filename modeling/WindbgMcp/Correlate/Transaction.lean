import WindbgMcp.Correlate.Identity

/-! The capture transaction (`skcorrelate.rs`): the windows of a plan, each of which opens
its layers, arms them, perhaps launches the workload, drains what it armed and ends what
it opened.  The driver is the other party of a program; a panic is an unwinding. -/
namespace WindbgMcp.Correlate
open WindbgMcp.Library WindbgMcp.Library.Program

def armOrder : List Layer := [.m6Vtl1, .m4Vtl0, .m5Hypervisor]

def alternatingWindows : List (List Layer) := [[.m6Vtl1], [.m4Vtl0, .m5Hypervisor], [.m6Vtl1]]

inductive TransactionState
  | preflight
  | opening
  | armed
  | workload
  | draining
  | restoring
  | transition
  | closed
  deriving DecidableEq, Repr

inductive TransactionVerdict
  | pass
  | incomplete
  deriving DecidableEq, Repr

structure RecoveryHandle where
  sessionId : String
  deriving DecidableEq, Repr

inductive Attempt (α : Type)
  | success (value : α)
  | failed (message : String) (recovery : Option RecoveryHandle)
  | timedOut (timeoutMs : Nat) (recovery : Option RecoveryHandle)
  deriving DecidableEq, Repr

def Attempt.succeeded {α : Type} : Attempt α → Option α
  | success value => some value
  | failed _ _ | timedOut _ _ => none

structure OpenAck where
  sessionId : String
  deriving DecidableEq, Repr

/-- The session an open leaves to be ended: the acknowledged one, or the one behind the
recovery handle. -/
def Attempt.cleanupSession : Attempt OpenAck → Option OpenAck
  | success value => some value
  | failed _ recovery | timedOut _ recovery => recovery.map fun handle => ⟨handle.sessionId⟩

structure ArmAck where
  traceId : String
  workloadReady : Bool
  identity : CaptureIdentity
  clock : RpcClockBracket
  deriving DecidableEq, Repr

structure RestorationAudit where
  restored : Bool
  running : Bool
  held : Bool
  droppedRecords : Nat
  droppedBytes : Nat
  unreadableFields : Nat
  deriving DecidableEq, Repr

def RestorationAudit.clean (audit : RestorationAudit) : Bool :=
  audit.restored && !audit.running && !audit.held && audit.droppedRecords == 0 &&
    audit.droppedBytes == 0 && audit.unreadableFields == 0

structure DrainAck where
  audit : RestorationAudit
  clock : RpcClockBracket
  deriving DecidableEq, Repr

structure EndAck where
  ended : Bool
  retainedProcesses : Nat
  deriving DecidableEq, Repr

structure TransitionAck where
  handlerUnregistered : Option Bool
  vtl1EnabledSlots : List Nat
  vtl0EnabledSlots : List Nat
  pendingClear : Bool
  trapFlagClear : Bool
  engineWorkers : Nat
  deriving DecidableEq, Repr

namespace TransitionAck

/-- The derived `Debug` form of the slots. -/
def slots (enabled : List Nat) : String :=
  "[" ++ String.intercalate ", " (enabled.map toString) ++ "]"

/-- What the closed window left behind; `closedVtl1` says whether it held the VTL1 session. -/
def leftover (ack : TransitionAck) (closedVtl1 : Bool) : List String :=
  (match ack.handlerUnregistered with
    | some true => []
    | some false => ["the VTL1 exception handler is still registered"]
    | none => if closedVtl1 then ["the VTL1 exception handler's state was not read"] else []) ++
  (if ack.vtl1EnabledSlots.isEmpty then []
    else ["VTL1 DR7 enables slots " ++ slots ack.vtl1EnabledSlots]) ++
  (if ack.vtl0EnabledSlots.isEmpty then []
    else ["VTL0 DR7 enables slots " ++ slots ack.vtl0EnabledSlots]) ++
  (if ack.pendingClear then []
    else ["an exception event or interruption is pending on the VP"]) ++
  (if ack.trapFlagClear then [] else ["the trap flag is set in a VTL"]) ++
  (if ack.engineWorkers = 0 then []
    else [toString ack.engineWorkers ++ " engine workers still run for the child"])

def clean (ack : TransitionAck) (closedVtl1 : Bool) : Except String Unit :=
  let leftover := ack.leftover closedVtl1
  if leftover.isEmpty then .ok () else .error (String.intercalate "; " leftover)

end TransitionAck

structure WorkloadAck where
  label : String
  deriving DecidableEq, Repr

inductive WorkloadResult
  | skippedIdle
  | launched (attempt : Attempt WorkloadAck)
  | withheld
  deriving DecidableEq, Repr

inductive IssueKind
  | failed
  | timedOut
  | invalid
  | unsafeChild
  deriving DecidableEq, Repr

structure TransactionIssue where
  state : TransactionState
  layer : Option Layer
  operation : String
  kind : IssueKind
  message : String
  deriving DecidableEq, Repr

structure LayerReport where
  openAttempt : Option (Attempt OpenAck) := none
  arm : Option (Attempt ArmAck) := none
  restoration : Option (Attempt DrainAck) := none
  endAttempt : Option (Attempt EndAck) := none
  deriving DecidableEq, Repr

structure LayerReports where
  m4Vtl0 : LayerReport := {}
  m5Hypervisor : LayerReport := {}
  m6Vtl1 : LayerReport := {}
  deriving DecidableEq, Repr

namespace LayerReports

def get (layers : LayerReports) : Layer → LayerReport
  | .m4Vtl0 => layers.m4Vtl0
  | .m5Hypervisor => layers.m5Hypervisor
  | .m6Vtl1 => layers.m6Vtl1

/-- A write through `get_mut`. -/
def set (layers : LayerReports) (report : LayerReport) : Layer → LayerReports
  | .m4Vtl0 => { layers with m4Vtl0 := report }
  | .m5Hypervisor => { layers with m5Hypervisor := report }
  | .m6Vtl1 => { layers with m6Vtl1 := report }

theorem get_set (layers : LayerReports) (report : LayerReport) (layer other : Layer) :
    (layers.set report layer).get other = if layer = other then report else layers.get other := by
  cases layer <;> cases other <;> rfl

end LayerReports

def transactionSchema : String := "windbg-mcp.sk-correlation-transaction.v1"

structure TransactionReport where
  schema : String
  state : TransactionState
  states : List TransactionState
  verdict : TransactionVerdict
  preflight : Attempt CaptureIdentity
  armOrder : List Layer
  successfulArmOrder : List Layer
  cleanupOrder : List Layer
  windows : List (List Layer)
  windowReports : List LayerReports
  transitions : List (Attempt TransitionAck)
  workload : WorkloadResult
  clock : Option (Attempt ClockAdmission)
  layers : LayerReports
  issues : List TransactionIssue
  deriving DecidableEq, Repr

namespace TransactionReport

def enter (report : TransactionReport) (state : TransactionState) : TransactionReport :=
  { report with state, states := report.states ++ [state] }

def raise (report : TransactionReport) (issues : List TransactionIssue) : TransactionReport :=
  { report with issues := report.issues ++ issues }

end TransactionReport

structure TransactionPlan where
  launchWorkload : Bool
  maxSkewTicks : Nat
  alternate : Bool
  deriving DecidableEq, Repr

/-- The calls of the driver. -/
inductive Query
  | preflight
  | openLayer (layer : Layer)
  | arm (layer : Layer) (session : OpenAck) (preflight : CaptureIdentity)
  | launchWorkload (preflight : CaptureIdentity)
  | drain (layer : Layer) (session : OpenAck) (arm : ArmAck)
  | endSession (layer : Layer) (session : OpenAck)
  | transition (closed opening : List Layer)
  deriving DecidableEq, Repr

@[reducible] def Answer : Query → Type
  | .preflight => Attempt CaptureIdentity
  | .openLayer _ => Attempt OpenAck
  | .arm _ _ _ => Attempt ArmAck
  | .launchWorkload _ => Attempt WorkloadAck
  | .drain _ _ _ => Attempt DrainAck
  | .endSession _ _ => Attempt EndAck
  | .transition _ _ => Attempt TransitionAck

abbrev Driven (α : Type) := Program Query Answer String α

def expect {α : Type} (message : String) : Option α → Driven α
  | some value => .done value
  | none => .unwind message

/-! ## Issues -/

def issueIf (holds : Bool) (issue : TransactionIssue) : List TransactionIssue :=
  if holds then [issue] else []

def issueFromAttempt {α : Type} (state : TransactionState) (layer : Option Layer)
    (operation : String) : Attempt α → List TransactionIssue
  | .success _ => []
  | .failed message _ => [⟨state, layer, operation, .failed, message⟩]
  | .timedOut timeoutMs _ =>
    [⟨state, layer, operation, .timedOut, "operation exceeded " ++ toString timeoutMs ++ " ms"⟩]

def preflightIssues (attempt : Attempt CaptureIdentity) : List TransactionIssue :=
  match attempt.succeeded with
  | some identity =>
    match identity.validate with
    | .ok () => []
    | .error message => [⟨.preflight, none, "preflight", .invalid, message⟩]
  | none => issueFromAttempt .preflight none "preflight" attempt

def planIssues (plan : TransactionPlan) : List TransactionIssue :=
  issueIf (plan.alternate && plan.launchWorkload)
    ⟨.preflight, none, "preflight", .invalid,
      "an alternating plan never has every layer armed at once, so it cannot launch a workload"⟩

def openIssues (layer : Layer) (attempt : Attempt OpenAck) : List TransactionIssue :=
  issueIf (attempt.cleanupSession.any fun session => session.sessionId.isEmpty)
    ⟨.opening, some layer, "open", .invalid, "the opened layer returned an empty session id"⟩ ++
  issueFromAttempt .opening (some layer) "open" attempt

def RpcClockBracket.names (clock : RpcClockBracket) (layer : Layer) (operation : String) : Bool :=
  clock.layer == layer.wireName && clock.operation == operation

section
variable (quoted : String → String)

def armIssues (layer : Layer) (identity : CaptureIdentity) (attempt : Attempt ArmAck) :
    List TransactionIssue :=
  match attempt.succeeded with
  | some arm =>
    issueIf arm.traceId.isEmpty
      ⟨.armed, some layer, "arm", .invalid, "the armed layer returned an empty trace id"⟩ ++
    issueIf (!arm.workloadReady)
      ⟨.armed, some layer, "arm", .invalid,
        "the armed layer did not acknowledge workload readiness"⟩ ++
    issueIf (!arm.clock.names layer "arm")
      ⟨.armed, some layer, "arm", .invalid,
        "the arm clock bracket names a different layer or operation"⟩ ++
    match admitIdentity identity arm.identity with
    | .ok () => []
    | .error error => [⟨.armed, some layer, "arm_identity", .invalid, error.debug quoted⟩]
  | none => issueFromAttempt .armed (some layer) "arm" attempt

end

def workloadIssues (identity : CaptureIdentity) (attempt : Attempt WorkloadAck) :
    List TransactionIssue :=
  match attempt.succeeded with
  | some workload =>
    issueIf (workload.label != identity.workloadLabel)
      ⟨.workload, none, "workload", .invalid,
        "the workload acknowledgement changed its capture label"⟩
  | none => issueFromAttempt .workload none "workload" attempt

def drainIssues (layer : Layer) (attempt : Attempt DrainAck) : List TransactionIssue :=
  match attempt.succeeded with
  | some drain =>
    issueIf (!drain.clock.names layer "drain")
      ⟨.draining, some layer, "drain", .invalid,
        "the drain clock bracket names a different layer or operation"⟩ ++
    issueIf (!drain.audit.clean)
      ⟨.draining, some layer, "drain", .unsafeChild,
        "the child remained running, held, dropped, unreadable or unrestored"⟩
  | none => issueFromAttempt .draining (some layer) "drain" attempt

def endIssues (layer : Layer) (attempt : Attempt EndAck) : List TransactionIssue :=
  match attempt.succeeded with
  | some ack =>
    issueIf (!ack.ended || ack.retainedProcesses != 0)
      ⟨.restoring, some layer, "end_session", .unsafeChild,
        "the opened layer did not end cleanly with zero retained processes"⟩
  | none => issueFromAttempt .restoring (some layer) "end_session" attempt

def transitionIssues (closed : List Layer) (attempt : Attempt TransitionAck) :
    List TransactionIssue :=
  match attempt.succeeded with
  | some ack =>
    match ack.clean (closed.contains .m6Vtl1) with
    | .ok () => []
    | .error message => [⟨.transition, none, "transition", .unsafeChild, message⟩]
  | none => issueFromAttempt .transition none "transition" attempt

/-! ## One window -/

/-- What a window works on: the running report and clock brackets of the transaction, and
the layers it opened and armed itself. -/
structure WindowState where
  report : TransactionReport
  brackets : List RpcClockBracket
  layers : LayerReports := {}
  opened : List Layer := []
  armed : List Layer := []

namespace WindowState

def enter (window : WindowState) (state : TransactionState) : WindowState :=
  { window with report := window.report.enter state }

def clear (window : WindowState) : Bool := window.report.issues.isEmpty

def recordOpen (window : WindowState) (layer : Layer) (attempt : Attempt OpenAck) :
    WindowState :=
  { window with
    report := window.report.raise (openIssues layer attempt)
    layers :=
      window.layers.set { window.layers.get layer with openAttempt := some attempt } layer
    opened := if attempt.cleanupSession.isSome then window.opened ++ [layer] else window.opened }

def recordArm (quoted : String → String) (identity : CaptureIdentity) (window : WindowState)
    (layer : Layer) (attempt : Attempt ArmAck) : WindowState :=
  let report := window.report.raise (armIssues quoted layer identity attempt)
  let layers := window.layers.set { window.layers.get layer with arm := some attempt } layer
  match attempt.succeeded with
  | some arm =>
    { window with
      report := { report with successfulArmOrder := report.successfulArmOrder ++ [layer] }
      layers
      armed := window.armed ++ [layer]
      brackets := window.brackets ++ [arm.clock] }
  | none => { window with report, layers }

def recordWorkload (identity : CaptureIdentity) (window : WindowState)
    (attempt : Attempt WorkloadAck) : WindowState :=
  { window with
    report :=
      { window.report.raise (workloadIssues identity attempt) with
        workload := .launched attempt } }

def recordDrain (window : WindowState) (layer : Layer) (attempt : Attempt DrainAck) :
    WindowState :=
  { window with
    report := window.report.raise (drainIssues layer attempt)
    layers := window.layers.set { window.layers.get layer with restoration := some attempt } layer
    brackets := window.brackets ++ (attempt.succeeded.map DrainAck.clock).toList }

def recordEnd (window : WindowState) (layer : Layer) (attempt : Attempt EndAck) : WindowState :=
  { window with
    report := window.report.raise (endIssues layer attempt)
    layers := window.layers.set { window.layers.get layer with endAttempt := some attempt } layer }

end WindowState

def openLayers : List Layer → WindowState → Driven WindowState
  | [], window => .done window
  | layer :: rest, window => .ask (.openLayer layer) fun attempt =>
    let window := window.recordOpen layer attempt
    if attempt.succeeded.isNone || !window.clear then .done window
    else openLayers rest window

section
variable (quoted : String → String)

def armLayers (identity : CaptureIdentity) : List Layer → WindowState → Driven WindowState
  | [], window => .done window
  | layer :: rest, window => do
    let session ← expect "all layers opened before arming"
      ((window.layers.get layer).openAttempt.bind Attempt.succeeded)
    .ask (.arm layer session identity) fun attempt =>
      let window := window.recordArm quoted identity layer attempt
      if attempt.succeeded.isNone || !window.clear then .done window
      else armLayers identity rest window

end

def drainLayers : List Layer → WindowState → Driven WindowState
  | [], window => .done window
  | layer :: rest, window => do
    let session ← expect "an armed layer was opened"
      ((window.layers.get layer).openAttempt.bind Attempt.succeeded)
    let arm ← expect "successful arm order contains only acknowledgements"
      ((window.layers.get layer).arm.bind Attempt.succeeded)
    .ask (.drain layer session arm) fun attempt =>
      drainLayers rest (window.recordDrain layer attempt)

def endLayers : List Layer → WindowState → Driven WindowState
  | [], window => .done window
  | layer :: rest, window => do
    let session ← expect "cleanup order contains only opened layers"
      ((window.layers.get layer).openAttempt.bind Attempt.cleanupSession)
    .ask (.endSession layer session) fun attempt =>
      endLayers rest (window.recordEnd layer attempt)

def cleanupOrder (successfulArms opened : List Layer) : List Layer :=
  successfulArms.reverse ++ opened.reverse.filter fun layer => !successfulArms.contains layer

section
variable (quoted : String → String) (plan : TransactionPlan) (layers : List Layer)
  (identity : Option CaptureIdentity)

def openPhase (window : WindowState) : Driven WindowState :=
  let window := window.enter .opening
  if identity.isSome && window.clear then openLayers layers window else .done window

def armPhase (window : WindowState) : Driven WindowState :=
  let window := window.enter .armed
  if window.clear && window.opened.length == layers.length then do
    let identity ← expect "validated preflight exists" identity
    armLayers quoted identity layers window
  else .done window

def workloadPhase (window : WindowState) : Driven WindowState :=
  if plan.alternate then .done window
  else
    let window := window.enter .workload
    if window.clear && window.armed.length == layers.length then
      if plan.launchWorkload then do
        let identity ← expect "validated preflight exists" identity
        .ask (.launchWorkload identity) fun attempt =>
          .done (window.recordWorkload identity attempt)
      else .done { window with report := { window.report with workload := .skippedIdle } }
    else .done window

def cleanupPhase (window : WindowState) : Driven WindowState := do
  let cleanup := cleanupOrder window.armed window.opened
  let report := { window.report with cleanupOrder := window.report.cleanupOrder ++ cleanup }
  let window ← drainLayers window.armed.reverse ({ window with report }.enter .draining)
  endLayers cleanup (window.enter .restoring)

/-- One window: open its layers, arm them, launch the workload if the plan asks for one,
then drain the successful arms in reverse and end every reachable session. -/
def runWindow (window : WindowState) : Driven WindowState := do
  let window ← openPhase layers identity window
  let window ← armPhase quoted layers identity window
  let window ← workloadPhase plan layers identity window
  cleanupPhase window

end

/-! ## The transaction -/

structure Capture where
  report : TransactionReport
  brackets : List RpcClockBracket := []
  openedTotal : Nat := 0
  armedTotal : Nat := 0

def TransactionPlan.windows (plan : TransactionPlan) : List (List Layer) :=
  if plan.alternate then alternatingWindows else [armOrder]

namespace Capture

def clear (capture : Capture) : Bool := capture.report.issues.isEmpty

def recordTransition (capture : Capture) (closed : List Layer)
    (attempt : Attempt TransitionAck) : Capture :=
  let report := capture.report.raise (transitionIssues closed attempt)
  { capture with report := { report with transitions := report.transitions ++ [attempt] } }

def recordWindow (capture : Capture) (layers : List Layer) (window : WindowState) : Capture where
  report :=
    { window.report with
      layers := layers.foldl (fun reports layer => reports.set (window.layers.get layer) layer)
        window.report.layers
      windowReports := window.report.windowReports ++ [window.layers] }
  brackets := window.brackets
  openedTotal := capture.openedTotal + window.opened.length
  armedTotal := capture.armedTotal + window.armed.length

end Capture

def transitionPhase (closed opening : List Layer) (capture : Capture) : Driven Capture :=
  .ask (.transition closed opening) fun attempt =>
    let capture := { capture with report := capture.report.enter .transition }
    .done (capture.recordTransition closed attempt)

section
variable (quoted : String → String) (plan : TransactionPlan)
  (identity : Option CaptureIdentity)

def windowPhase (layers : List Layer) (capture : Capture) : Driven Capture := do
  let window ← runWindow quoted plan layers identity
    { report := capture.report, brackets := capture.brackets }
  .done (capture.recordWindow layers window)

/-- The loop over the windows; `previous` is the window before, absent at the first. -/
def runWindows : Option (List Layer) → List (List Layer) → Capture → Driven Capture
  | _, [], capture => .done capture
  | none, layers :: rest, capture => do
    let capture ← windowPhase quoted plan identity layers capture
    if !capture.clear then .done capture else runWindows (some layers) rest capture
  | some closed, layers :: rest, capture => do
    let capture ← transitionPhase closed layers capture
    if !capture.clear then .done capture
    else do
      let capture ← windowPhase quoted plan identity layers capture
      if !capture.clear then .done capture else runWindows (some layers) rest capture

end

def initialReport (plan : TransactionPlan) (preflight : Attempt CaptureIdentity) :
    TransactionReport where
  schema := transactionSchema
  state := .preflight
  states := [.preflight]
  verdict := .incomplete
  preflight := preflight
  armOrder := plan.windows.flatten
  successfulArmOrder := []
  cleanupOrder := []
  windows := plan.windows
  windowReports := []
  transitions := []
  workload := .withheld
  clock := none
  layers := {}
  issues := []

def clockPhase (plan : TransactionPlan) (capture : Capture) : Driven TransactionReport :=
  if capture.brackets.isEmpty then .done capture.report
  else
    match admitClock capture.brackets plan.maxSkewTicks with
    | .error panic => .unwind panic
    | .ok (.ok clock) => .done { capture.report with clock := some (.success clock) }
    | .ok (.error message) =>
      .done
        { capture.report.raise
            [⟨.restoring, none, "clock_admission", .invalid, message⟩] with
          clock := some (.failed message none) }

def Capture.idled (plan : TransactionPlan) (capture : Capture) : Capture :=
  if plan.alternate && capture.clear && capture.armedTotal == capture.report.armOrder.length then
    { capture with report := { capture.report with workload := .skippedIdle } }
  else capture

def Capture.conclude (capture : Capture) (report : TransactionReport) : TransactionReport :=
  let report := report.enter .closed
  if report.issues.isEmpty && capture.openedTotal == report.armOrder.length &&
      capture.armedTotal == report.armOrder.length &&
      report.transitions.length + 1 == report.windows.length then
    { report with verdict := .pass }
  else report

def runTransaction (quoted : String → String) (plan : TransactionPlan) :
    Driven TransactionReport :=
  .ask .preflight fun preflight => do
    let identity := preflight.succeeded.filter fun identity => identity.validate.isOk
    let report := (initialReport plan preflight).raise (preflightIssues preflight)
    let report := report.raise (planIssues plan)
    let capture ← runWindows quoted plan identity none plan.windows { report }
    let report ← clockPhase plan (capture.idled plan)
    .done (capture.conclude report)

end WindbgMcp.Correlate
