import WindbgMcp.Engine.Session

/-! Calls, the gate each of them meets at the front of its session's queue, and the
one acquisition of the state lock in which the pump decides it. -/
namespace WindbgMcp.Engine

/-- Engine operations by what the supervisor asks of them: the three kinds of
Secure Kernel operation, the ones every session takes, and the debugger's own. -/
inductive EngineOp
  | opener
  | debugger
  | endSession
  | interrupt
  | preserveKernel
  | capture
  | live
  | liveBreak
  | kd
  deriving DecidableEq, Repr

/-- Whether a session of this kind takes the operation at all; an allow-list. -/
def refuseOpOnKind (kind : SessionKind) (op : EngineOp) : Option String :=
  if kind = .secureKernelKd ∧ op = .interrupt then
    some ("WinDbg owns this session's stop/run lifecycle. An MCP interrupt could turn its active " ++
      "wait into terminal controller release, so it is refused. Running-state break-in is " ++
      "unsupported for managed Secure Kernel KD; use end_session to release the controller.")
  else
    match kind, op with
    | _, .endSession => none
    | _, .interrupt => none
    | _, .preserveKernel => none
    | .secureKernel, .capture => none
    | .secureKernel, _ =>
      some ("The debugger tools answer about the engine's target, which in this session is the " ++
        "Secure Kernel image on disk — not the guest's VTL1 — so they would answer about the wrong " ++
        "thing rather than fail. Use this session's own capture tools, or end it and open the " ++
        "target you meant.")
    | .secureKernelLive, .live => none
    | .secureKernelLive, .liveBreak => none
    | .secureKernelLive, _ =>
      some ("This live Secure Kernel session exposes only its epoch-bound VTL1 operations. The " ++
        "debugger target behind the adapter is `vmwp`, so an ordinary debugger tool would answer " ++
        "about the host process rather than the guest.")
    | .secureKernelKd, .kd => none
    | .secureKernelKd, _ =>
      some ("WinDbg owns this Secure Kernel KD session's execution lease. Only session status, " ++
        "logs and teardown are available through MCP while it is connected.")
    | _, .capture =>
      some ("The Secure Kernel capture tools read a Hyper-V saved state, and this session holds a " ++
        "debugger target instead. Open a capture in a session of its own.")
    | _, .live | _, .liveBreak =>
      some ("The live Secure Kernel tools require a live-control session of their own; this " ++
        "session holds a different target.")
    | _, .kd =>
      some "The Secure Kernel KD service operation belongs to its dedicated managed session."
    | _, .opener => none
    | _, .debugger => none

inductive On
  | handle | default | teardown | supervisor
  deriving DecidableEq, Repr

structure Gate where
  on : On
  /-- The call itself can replace the target. -/
  retires : Option String := none
  /-- An explicit teardown: the session takes no work behind this call. -/
  closes : Option String := none
  deriving DecidableEq, Repr

def Gate.admits (gate : Gate) (state : SessionState) : Bool :=
  match gate.on with
  | .handle => state.acceptsHandle
  | .default => state.acceptsDefault
  | .teardown => state.acceptsTeardown
  | .supervisor => true

/-- A call to run against a session.  Only the debugger's own operations are marked
as retiring the handle, and never by the supervisor. -/
structure Call where
  op : EngineOp
  gate : Gate
  retiring_debugger : gate.retires.isSome = true → op = .debugger ∧ gate.on ≠ .supervisor
  deriving DecidableEq, Repr

namespace Call

def new (op : EngineOp) : Call := ⟨op, { on := .default }, by simp⟩

def named (op : EngineOp) : Call := ⟨op, { on := .handle }, by simp⟩

def retiring (isNamed : Bool) (why : String) : Call :=
  ⟨.debugger, { on := if isNamed then .handle else .default, retires := some why },
    fun _ => ⟨rfl, by cases isNamed <;> simp⟩⟩

def closing (isNamed : Bool) : Call :=
  ⟨.endSession,
    { on := if isNamed then .teardown else .default, closes := some endSessionClosing }, by simp⟩

def supervisor (op : EngineOp) : Call := ⟨op, { on := .supervisor }, by simp⟩

def retires (call : Call) : Bool := call.gate.retires.isSome

end Call

structure Job where
  id : Nat
  call : Call
  deriving DecidableEq, Repr

def liveBreakFollowsTeardown (kind : SessionKind) (state : SessionState) (op : EngineOp) : Bool :=
  kind == .secureKernelLive && op == .liveBreak &&
    state == .liveControlUnresolved liveControlEndSessionClosing

inductive Refused
  | recoveryRequired | stale
  deriving DecidableEq, Repr

namespace Session

def refuses (session : Session) (call : Call) : Option Refused :=
  let follows := liveBreakFollowsTeardown session.kind session.state call.op
  if (session.kernelUnresolved && call.op != .preserveKernel) ||
      (session.liveControlUnresolved && call.op != .endSession && !follows) then
    some .recoveryRequired
  else if !follows && !call.gate.admits session.state then some .stale
  else none

def closingState (session : Session) (why : String) : SessionState :=
  match session.kind with
  | .kernel => .kernelUnresolved "kernel release is in progress; completion is unconfirmed"
  | .secureKernelLive | .secureKernelKd => .liveControlUnresolved liveControlEndSessionClosing
  | _ => .closed why

def retirement (session : Session) (call : Call) (state : SessionState) : Option SessionState :=
  call.gate.retires.bind fun why => session.ordinaryMove state (.retired why)

def forwarding (session : Session) (call : Call) (state : SessionState) : Option SessionState :=
  let retired := session.retirement call state
  match call.gate.closes with
  | some why => (session.ordinaryMove (retired.getD state) (session.closingState why)).or retired
  | none => retired

def gate (session : Session) (now : Nat) (job : Job) : Session × Option Refused :=
  match session.refuses job.call with
  | some refused => (session, some refused)
  | none =>
    ((session.transition now fun state claims =>
      (session.forwarding job.call state,
        if job.call.retires then { claims with takeover := some job.id } else claims)).1, none)

theorem refuses_none {session : Session} {call : Call} (h : session.refuses call = none) :
    (session.kernelUnresolved = true → call.op = .preserveKernel) ∧
      (liveBreakFollowsTeardown session.kind session.state call.op = true ∨
        (session.liveControlUnresolved = true → call.op = .endSession) ∧
          call.gate.admits session.state = true) := by
  simp only [refuses] at h
  split at h
  · cases h
  · rename_i hfree
    split at h
    · cases h
    · rename_i hadmitted
      cases hfollows : liveBreakFollowsTeardown session.kind session.state call.op <;>
        simp_all

theorem retires_none_of_op {call : Call} (hop : call.op ≠ .debugger) :
    call.gate.retires = none := by
  cases hretires : call.gate.retires with
  | none => rfl
  | some why => exact absurd (call.retiring_debugger (by simp [hretires])).1 hop

theorem forwarding_of_not_retiring {session : Session} {call : Call} {state next : SessionState}
    (hretires : call.gate.retires = none) (h : session.forwarding call state = some next) :
    ∃ why, call.gate.closes = some why ∧ next = session.closingState why := by
  have hretired : session.retirement call state = none := by simp [retirement, hretires]
  simp only [forwarding, hretired] at h
  cases hcloses : call.gate.closes with
  | none =>
    rw [hcloses] at h
    cases h
  | some why =>
    rw [hcloses] at h
    refine ⟨why, rfl, ?_⟩
    simp only [Option.getD_none, Option.or_none, ordinaryMove] at h
    split at h
    · cases h
    · split at h
      · exact (Option.some.inj h).symm
      · cases h

end Session

end WindbgMcp.Engine
