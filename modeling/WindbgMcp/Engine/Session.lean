import Mathlib.Data.List.Basic
import WindbgMcp.Engine.Execution
import WindbgMcp.KdConn.Connection
import WindbgMcp.Structured

/-! One debug session as the supervisor holds it: what the state lock guards, the
flags beside it, the worker's process handle and the calls the worker still owes.
Instants and durations are nanoseconds, and every reading of the clock is an
argument. -/
namespace WindbgMcp.Engine
open Library
open Structured (ProfileFacts)

/-- Who a call belongs to.  A name that was given back and configured again is
another client, told apart by the incarnation. -/
structure Client where
  name : String
  incarnation : Nat
  deriving DecidableEq, Repr

inductive SessionKind
  | dump | trace | kernelLocal | kernel | process | launch
  | secureKernel | secureKernelLive | secureKernelKd
  deriving DecidableEq, Repr

def SessionKind.label : SessionKind → String
  | .dump => "crash dump"
  | .trace => "TTD trace"
  | .kernelLocal => "local kernel"
  | .kernel => "kernel target"
  | .process => "attached process"
  | .launch => "launched process"
  | .secureKernel => "Secure Kernel capture"
  | .secureKernelLive => "live Secure Kernel"
  | .secureKernelKd => "Secure Kernel KD"

def SessionKind.isSecureKernelController : SessionKind → Bool
  | .secureKernelLive | .secureKernelKd => true
  | _ => false

inductive OpenPhase
  | started | committed | opened
  deriving DecidableEq, Repr

def OpenPhase.rank : OpenPhase → Nat
  | .started => 0
  | .committed => 1
  | .opened => 2

def OpenPhase.isCommitted (phase : OpenPhase) : Bool := phase != .started

inductive SecureKernelKdPhase
  | discovering | arming | waitingForPeer | stopped | running | reconnecting
  | releasing | released | recoveryRequired
  deriving DecidableEq, Repr

inductive SessionState
  | kernelUnresolved (why : String)
  | liveControlUnresolved (why : String)
  | secureKernelKd (phase : SecureKernelKdPhase)
  | opening
  | attaching
  | opened
  | failed (why : String)
  | retired (why : String)
  | closed (why : String)
  deriving DecidableEq, Repr

namespace SessionState

def isKernelUnresolved : SessionState → Bool
  | .kernelUnresolved _ => true
  | _ => false

def isLiveControlUnresolved : SessionState → Bool
  | .liveControlUnresolved _ => true
  | _ => false

def isRetired : SessionState → Bool
  | .retired _ => true
  | _ => false

def isClosed : SessionState → Bool
  | .closed _ => true
  | _ => false

def acceptsHandle : SessionState → Bool
  | .opening | .attaching | .opened => true
  | .secureKernelKd phase =>
    match phase with
    | .discovering | .arming | .waitingForPeer | .stopped | .running | .reconnecting => true
    | .releasing | .released | .recoveryRequired => false
  | _ => false

def acceptsDefault (state : SessionState) : Bool := state.acceptsHandle || state.isRetired

def acceptsTeardown (state : SessionState) : Bool :=
  state.acceptsHandle ||
    match state with
    | .retired _ | .kernelUnresolved _ | .liveControlUnresolved _ | .secureKernelKd _ => true
    | _ => false

def acceptsExecutionRead (state : SessionState) : Bool :=
  state.acceptsHandle || state.isRetired

def isLive : SessionState → Bool
  | .failed _ | .closed _ => false
  | _ => true

end SessionState

/-- The claims on a session's worker that are read in the same instant as its state. -/
structure Claims where
  /-- The latest target-changing command forwarded to the worker, by job id. -/
  takeover : Option Nat := none
  /-- The reason a settlement withheld because a takeover stood when it ran. -/
  withheld : Option String := none
  deriving DecidableEq, Repr

structure Standing where
  state : SessionState
  since : Nat
  claims : Claims := {}
  deriving DecidableEq, Repr

structure SecureKernelLiveTarget where
  vmwpPid : Nat
  vmId : String
  lowercase : ∃ spelling, vmId = Text.toAsciiLowercase spelling
  deriving DecidableEq, Repr

def SecureKernelLiveTarget.new (vmwpPid : Nat) (vmId : String) : SecureKernelLiveTarget :=
  ⟨vmwpPid, Text.toAsciiLowercase vmId, vmId, rfl⟩

def SecureKernelLiveTarget.conflicts (target other : SecureKernelLiveTarget) : Bool :=
  target.vmwpPid == other.vmwpPid || target.vmId == other.vmId

structure ExecutionInfo where
  execution : String
  command : String
  runningForMs : Nat
  stopped : Bool
  breaksInMs : Option Nat
  deriving DecidableEq, Repr

def ms (duration : Nat) : Nat := min (duration / 1000000) 18446744073709551615

def Execution.info {ω ε : Type} (run : Execution ω ε) (now : Nat) : ExecutionInfo where
  execution := run.handle
  command := run.command
  runningForMs := ms (run.hasRunFor now)
  stopped := !run.running
  breaksInMs := (run.breaksIn now).map ms

inductive EngineError
  | debugger (message : String)
  | timeout (message : String)
  | stale (message : String)
  | lost (message : String)
  | recoveryRequired (message : String)
  deriving DecidableEq, Repr

/-- What a caller is told about a handle that is here and takes no call. -/
def staleHandle (want : String) : SessionState → String
  | .kernelUnresolved why => why
  | .liveControlUnresolved why => why
  | .failed why =>
    "session `" ++ want ++ "` never opened:\n  " ++ why ++ ("\n\nOpening again is how you get a " ++
    "target — but read the reason first, since some failures leave one behind.")
  | .retired why =>
    "session handle `" ++ want ++ "` has been retired: " ++ why ++ (". It no longer names the " ++
    "target it was issued for, so the guarantee the handle buys no longer applies. Open again for a " ++
    "handle that means something, or `end_session \x7b \"session_id\": \"") ++ want ++ ("\" \x7d` to " ++
    "release this worker — that still takes this handle. Omitting `session_id` reaches the worker " ++
    "only while this is still your current session, so it is not a way back to it once you have " ++
    "opened another.")
  | .closed why =>
    "session `" ++ want ++ "` is closed: " ++ why ++ (". Open a target again with open_dump / " ++
    "open_trace / attach_process / attach_kernel / attach_kernel_local / launch.")
  | _ => "session `" ++ want ++ "` is not accepting calls"

def unknownHandle (want : String) : String :=
  "unknown session handle `" ++ want ++ ("`: this server is not holding it. Either it was never " ++
  "issued here, or it closed a while ago and has aged out of the session history. A session still " ++
  "in flight is never forgotten, so opening again is safe.")

def endSessionClosing : String := "end_session is releasing its target"

def liveControlEndSessionClosing : String :=
  ("live Secure Kernel release is in progress; register restoration, handler cleanup and handled " ++
  "detach are unconfirmed")

structure Waiting where
  job : Nat
  /-- An `EndSession`, whose reply counts even after its caller gave up. -/
  ending : Bool
  deriving DecidableEq, Repr

structure Session where
  kernelEndpoint : Option KdConn.Endpoint := none
  secureKernelLiveTarget : Option SecureKernelLiveTarget := none
  id : String
  kind : SessionKind
  what : String
  profile : Option ProfileFacts := none
  pid : Nat
  created : Nat
  standing : Standing
  waiters : List Waiting := []
  delivered : Bool := false
  owner : Client
  phase : OpenPhase := .started
  released : Bool := false
  kernelHandoffComplete : Bool := false
  execution : Option (Execution Unit Unit) := none
  /-- Whether the worker's process handle is still here to be taken. -/
  child : Bool := true
  deriving DecidableEq, Repr

/-- What a closure under the state lock decides: the state to move to, if any, and
the claims as it leaves them. -/
abbrev Proposal := SessionState → Claims → Option SessionState × Claims

structure Settled where
  state : SessionState
  moved : Bool
  deriving DecidableEq, Repr

namespace Session

def state (session : Session) : SessionState := session.standing.state

def claims (session : Session) : Claims := session.standing.claims

def kernelUnresolved (session : Session) : Bool := session.state.isKernelUnresolved

def liveControlUnresolved (session : Session) : Bool := session.state.isLiveControlUnresolved

def isLive (session : Session) : Bool := session.state.isLive

def isHeld (session : Session) : Bool := session.isLive || session.child

def releaseOrHandoffVerified (session : Session) : Bool :=
  session.released || session.kernelHandoffComplete

/-- `next` only from a live state, and never off an unresolved controller that has
not been released. -/
def ordinaryMove (session : Session) (state next : SessionState) : Option SessionState :=
  if (state.isKernelUnresolved || state.isLiveControlUnresolved) && !session.released &&
      !(next.isKernelUnresolved || next.isLiveControlUnresolved) then none
  else if state.isLive then some next
  else none

def allowed (session : Session) (proposed : Option SessionState) : Bool :=
  session.isLive ||
  (session.kind == .kernel && !session.released &&
    proposed.any SessionState.isKernelUnresolved) ||
  (session.kind.isSecureKernelController && !session.released &&
    proposed.any SessionState.isLiveControlUnresolved) ||
  (session.kind == .kernel && session.releaseOrHandoffVerified && session.state.isClosed &&
    proposed.any SessionState.isLiveControlUnresolved) ||
  (session.state.isClosed && proposed.any SessionState.isClosed)

/-- What one acquisition of the state lock leaves behind it.  The closure's changes
to the claims stand even where the move it proposes is not allowed. -/
def restand (session : Session) (now : Nat) (next : Proposal) : Standing × Settled :=
  match next session.state session.claims with
  | (some proposed, claims) =>
    if session.allowed (some proposed) then
      (⟨proposed, now, claims⟩, ⟨proposed, proposed != session.state⟩)
    else ({ session.standing with claims }, ⟨session.state, false⟩)
  | (none, claims) => ({ session.standing with claims }, ⟨session.state, false⟩)

def transition (session : Session) (now : Nat) (next : Proposal) : Session × Settled :=
  ({ session with standing := (session.restand now next).1 }, (session.restand now next).2)

def updateState (session : Session) (now : Nat)
    (next : SessionState → Option SessionState) : Session :=
  (session.transition now fun state claims => (next state, claims)).1

def setState (session : Session) (now : Nat) (next : SessionState) : Session :=
  session.updateState now fun state => session.ordinaryMove state next

def runningExecution (session : Session) : Bool := session.execution.any Execution.running

/-- Whether the worker owes a reply, is still opening, has not been handed to its
caller yet, or retains a controller whose release is unresolved. -/
def busy (session : Session) : Bool :=
  session.kernelUnresolved || session.liveControlUnresolved || !session.delivered ||
    !session.waiters.isEmpty || session.runningExecution ||
    session.state == .opening || session.state == .attaching

end Session

end WindbgMcp.Engine
