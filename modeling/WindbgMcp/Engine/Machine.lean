import WindbgMcp.Engine.Settlement
import WindbgMcp.Library.Threads

/-! One session and the parties around it, as they interleave: the task that opens it,
the thread that writes its queue to the worker, the reader of the worker's messages, and
any number of callers.  Every step is one atomic section: an acquisition of the state
lock, of the waiters' lock, a load or a store of a flag, or a send. -/
namespace WindbgMcp.Engine
open Library

def openerJob : Nat := 1

def workerGone (id : String) : String :=
  "the engine worker process holding session `" ++ id ++ ("` is gone — it exited, crashed, or was " ++
  "terminated. That session's target is lost; the server is unaffected, so opening again starts a " ++
  "fresh one.")

def timedOut (id : String) : String :=
  "engine call timed out (the target may still be running). The session `" ++ id ++ ("` is still " ++
  "holding this call; `session_status` reports it, and `end_session` ends it outright — including " ++
  "by terminating the worker process if it will not unwind.")

def sessionEnded (id : String) : String := "session `" ++ id ++ "` was ended"

inductive Caller
  | plain | opening | releasing
  deriving DecidableEq, Repr

inductive Ender
  | settlement | teardown | turnedAway
  deriving DecidableEq, Repr

inductive StateStep
  | preserveKernel (why : String)
  | preserveLiveControl (why : String)
  | loseLiveControl
  | compositeFailed (why : String)
  | preserveCompositeController (publicPeerGone : Bool) (why : String)
  | ended (reason : String)
  | finishEnd (publicPeerGone : Bool) (reason : String)
  | close (reason : String)
  | reach (phase : OpenPhase)
  | commitOpening
  | promoteOpened
  | kdPhase (phase : SecureKernelKdPhase)
  | showPhase (phase : SecureKernelKdPhase)
  | replaceTarget (why : String)
  | refuseTakeover (job : Nat)
  | settleUncommitted (why : String)
  | settleOpen (reply : Reply)
  | releaseUnclaimedKernel (refusal : EngineError)
  | settleUnresolved (reply : Reply)
  | settleVerdict (reply : Reply)
  | returned (caller : Caller) (reply : Reply)
  | confirmRelease
  | publishRelease (job : Nat)
  | closeReleased
  | workerExited
  | kernelHandoff (pid : Nat)
  | takeForHandoff (pid : Nat)
  | verifyExit
  | handOver
  | finishHandoff
  | closeHandedOver
  | kill (ender : Ender)
  | take (ender : Ender)
  deriving DecidableEq, Repr

inductive CallStep
  | release (call : Call)
  | submit (job : Job) (caller : Caller)
  | insert (job : Job) (caller : Caller)
  | send (job : Job) (caller : Caller)
  | await (job : Nat) (caller : Caller)
  | close (job : Nat) (caller : Caller) (preserve : Bool)
  | notify
  | answer (job : Nat) (reply : Reply)
  | deliver (job : Nat) (reply : Reply)
  | failOutstanding (why : String)
  | lastAnswers
  deriving DecidableEq, Repr

inductive Section
  | state (step : StateStep)
  | call (step : CallStep)
  deriving DecidableEq, Repr

inductive Write
  | written | unencodable | failed
  deriving DecidableEq, Repr

structure Input where
  now : Nat := 0
  expired : Bool := false
  write : Write := .written
  /-- The process a handoff killed is known to have exited. -/
  exitVerified : Bool := true
  /-- A companion whose release was not confirmed. -/
  unreleased : Option String := none
  deriving DecidableEq, Repr

namespace Session

def isGuarded (session : Session) : Bool :=
  session.kind == .kernel || session.kind.isSecureKernelController

def killIfMoved (settled : Settled) : List Section :=
  if settled.moved then [.state (.kill .settlement)] else []

def opened (session : Session) : Reply → List Section
  | .ok => [.state .promoteOpened]
  | .error (.timeout _) => []
  | .error (.recoveryRequired _) =>
    if session.kind == .kernel && !session.kernelUnresolved && !session.released then
      [.state (.preserveKernel "the worker could not prove its attach claimed nothing")]
    else []
  | .error why =>
    if !session.phase.isCommitted then [.state (.settleUncommitted why.text)]
    else if !session.isLive then []
    else if session.kind == .kernel && session.phase != .opened then
      [.state (.preserveKernel "the attach returned without a confirmed initial stop")]
    else [.state .promoteOpened]

def releaseReturned (session : Session) : Reply → List Section
  | .ok => [.state .confirmRelease]
  | .error (.stale _) => []
  | .error _ =>
    if session.kind == .kernel && !session.released then
      [.state (.preserveKernel
        "the worker did not confirm release; automatic termination was refused")]
    else if session.kind.isSecureKernelController && !session.released then
      [.state (.preserveLiveControl ("the worker did not confirm register restoration, handler " ++
        "cleanup and handled detach"))]
    else [.call (.failOutstanding (sessionEnded session.id)), .state (.kill .teardown)]

def returned (session : Session) (reply : Reply) : Caller → List Section
  | .plain => []
  | .opening => session.opened reply
  | .releasing => session.releaseReturned reply

def deadlineExpired : String := "the caller's deadline expired without confirmed completion"

def expired (session : Session) (caller : Caller) (preserve : Bool) : List Section :=
  if preserve then
    [.state (.preserveKernel deadlineExpired),
      .state (.returned caller
        (.error (.recoveryRequired (session.preservedKernel deadlineExpired))))]
  else [.state (.returned caller (.error (.timeout (timedOut session.id))))]

def settleVerdict (session : Session) : Reply → List Section
  | .ok => [.state .promoteOpened]
  | .error why =>
    if session.kind == .kernel && (Reply.error why).isRecoveryRequired then
      [.state (.preserveKernel "the worker could not prove its attach claimed nothing")]
    else if session.kind == .kernel && session.phase.isCommitted && session.phase != .opened then
      [.state (.preserveKernel "late attach reply did not confirm an initial stop")]
    else if !session.phase.isCommitted then [.state (.settleUncommitted why.text)]
    else [.state .promoteOpened]

def workerExited (session : Session) : List Section :=
  if !session.isLive then []
  else if session.kind == .kernel && !session.released then
    [.state (.preserveKernel
      "the worker exited without confirming release; endpoint reservation retained")]
  else if session.kind.isSecureKernelController && !session.released then
    [.state .loseLiveControl]
  else [.state (.close "the engine worker process exited")]

end Session

def StateStep.exec (session : Session) (input : Input) :
    StateStep → Session × List Section
  | .preserveKernel why => (session.preserveKernel input.now why, [.call .notify])
  | .preserveLiveControl why => (session.preserveLiveControl input.now why, [])
  | .loseLiveControl => (session.loseLiveControl input.now, [])
  | .compositeFailed why =>
    (session, [.state (.preserveCompositeController session.releaseOrHandoffVerified why)])
  | .preserveCompositeController publicPeerGone why =>
    (session.preserveCompositeController input.now publicPeerGone why, [])
  | .ended reason => (session, [.state (.finishEnd session.releaseOrHandoffVerified reason)])
  | .finishEnd publicPeerGone reason => (session.finishEnd input.now publicPeerGone reason, [])
  | .close reason => (session.setState input.now (.closed reason), [])
  | .reach phase => (session.reach phase, [])
  | .commitOpening => (session.commitOpening input.now, [])
  | .promoteOpened => (session.promoteOpened input.now, [])
  | .kdPhase phase =>
    if session.kind == .secureKernelKd then
      ({ session with released := session.released || phase == .released },
        [.state (.showPhase phase)])
    else (session, [])
  | .showPhase phase => (session.setState input.now (.secureKernelKd phase), [])
  | .replaceTarget why => (session.replaceTarget input.now why, [])
  | .refuseTakeover job =>
    let (session, settled) := session.refuseTakeover input.now job
    (session, if settled.state.isLive then [] else Session.killIfMoved settled)
  | .settleUncommitted why =>
    let (session, settled) := session.settleUncommitted input.now why
    (session, Session.killIfMoved settled)
  | .settleOpen reply =>
    match reply with
    | .error why =>
      if session.kind == .kernel && !session.phase.isCommitted && !reply.isRecoveryRequired then
        (session, [.state (.releaseUnclaimedKernel why)])
      else (session, [.state (.settleUnresolved reply)])
    | .ok => (session, [.state (.settleUnresolved reply)])
  | .releaseUnclaimedKernel refusal =>
    let (session, settled) := session.releaseUnclaimedKernel input.now refusal
    (session, Session.killIfMoved settled ++
      if settled.state.isLive then [.state (.settleUnresolved (.error refusal))] else [])
  | .settleUnresolved reply =>
    (session, if session.kernelUnresolved || session.liveControlUnresolved then []
      else [.state (.settleVerdict reply)])
  | .settleVerdict reply => (session, session.settleVerdict reply)
  | .returned caller reply => (session, session.returned reply caller)
  | .confirmRelease =>
    ({ session with released := true },
      (if session.isGuarded then [.state (.close Session.releasedReason)] else []) ++
        [.call (.failOutstanding (sessionEnded session.id)), .state (.kill .teardown)])
  | .publishRelease job =>
    ({ session with released := true },
      [.state .closeReleased, .call (.deliver job .ok),
        .call (.failOutstanding (sessionEnded session.id)), .state (.kill .teardown)])
  | .closeReleased => (session.closeAs input.now Session.releasedReason, [])
  | .workerExited => (session, session.workerExited)
  | .kernelHandoff pid =>
    (session, if session.kind == .kernel && session.kernelUnresolved && pid == session.pid then
      [.state (.takeForHandoff pid)] else [])
  | .takeForHandoff _ =>
    ({ session with child := false }, if session.child then [.state .verifyExit] else [])
  | .verifyExit =>
    if input.exitVerified then (session, [.state .handOver])
    else ({ session with child := true }, [])
  | .handOver =>
    ({ session with kernelHandoffComplete := true },
      [.call (.failOutstanding "explicit kernel recovery handoff; target state remains unknown"),
        .state .finishHandoff])
  | .finishHandoff =>
    match input.unreleased with
    | some why => (session, [.state (.compositeFailed why)])
    | none => (session, [.state .closeHandedOver])
  | .closeHandedOver => (session.closeAs input.now Session.handoffReason, [])
  | .kill ender =>
    (session, if session.kernelUnresolved && !session.released then [] else [.state (.take ender)])
  | .take _ => ({ session with child := false }, [])

inductive Message
  | committed (job : Nat)
  | opened (job : Nat)
  | kdPhase (phase : SecureKernelKdPhase)
  | targetReplaced (why : String)
  | done (job : Nat) (reply : Reply)
  deriving DecidableEq, Repr

inductive Admission
  | spawned | registered | turnedAway
  deriving DecidableEq, Repr

inductive PumpState
  | waiting
  /-- Past the gate, about to write. -/
  | writing (job : Job)
  /-- About to answer, and to go on with the queue or give up on it. -/
  | responding (job : Nat) (reply : Reply) (last : Bool)
  | stopping
  | stopped
  deriving DecidableEq, Repr

structure Shared where
  session : Session
  admission : Admission := .spawned
  drawn : Nat := 0
  queue : List Job := []
  pump : PumpState := .waiting
  forwarded : List Job := []
  replies : List (Nat × Reply) := []
  messages : List Message := []
  connected : Bool := true
  reading : Bool := true
  /-- What was sent to calls through their waiters. -/
  answers : List (Nat × Reply) := []
  /-- Calls whose submission failed at the queue. -/
  turnedBack : List Nat := []
  /-- Calls whose caller closed its receiver at its deadline. -/
  closed : List Nat := []
  deriving DecidableEq, Repr

namespace Shared

def nextId (shared : Shared) : Nat := openerJob + 1 + shared.drawn

def draw (shared : Shared) : Shared := { shared with drawn := shared.drawn + 1 }

def pumping (shared : Shared) : Bool := shared.pump != .stopped

def onSession (shared : Shared) (session : Session) : Shared := { shared with session }

@[simp] theorem onSession_session (shared : Shared) (session : Session) :
    (shared.onSession session).session = session := rfl

@[simp] theorem onSession_admission (shared : Shared) (session : Session) :
    (shared.onSession session).admission = shared.admission := rfl

def waiters (shared : Shared) : List Waiting := shared.session.waiters

def setWaiters (shared : Shared) (waiters : List Waiting) : Shared :=
  shared.onSession { shared.session with waiters }

def waiter (shared : Shared) (job : Nat) : Option Waiting :=
  shared.waiters.find? fun waiting => waiting.job == job

def removeWaiter (shared : Shared) (job : Nat) : Shared :=
  shared.setWaiters (shared.waiters.filter fun waiting => waiting.job != job)

def answered (shared : Shared) (job : Nat) : Option Reply :=
  (shared.answers.find? fun answer => answer.1 == job).map Prod.snd

def sendAnswer (shared : Shared) (job : Nat) (reply : Reply) : Shared :=
  { shared with answers := shared.answers ++ [(job, reply)] }

def enqueue (shared : Shared) (job : Job) : Shared :=
  { shared with queue := shared.queue ++ [job] }

def failOutstanding (shared : Shared) (why : String) : Shared :=
  { shared.setWaiters [] with
    answers := shared.answers ++
      shared.waiters.map fun waiting => (waiting.job, .error (.lost why)) }

end Shared

def CallStep.exec (shared : Shared) (input : Input) : CallStep → Shared × List Section
  | .release call =>
    let session := shared.session
    if session.kind == .kernel && !session.released &&
        (session.kernelUnresolved || session.phase != .opened) then
      (shared, [.state (.preserveKernel
        "release is unsafe while attach/controller state is unresolved")])
    else
      (shared.draw, [.call (.submit ⟨shared.nextId, call⟩ .releasing)])
  | .submit job caller =>
    let session := shared.session
    if session.kernelUnresolved && job.call.op != .preserveKernel then
      (shared, [.state (.returned caller
        (.error (.recoveryRequired (staleHandle session.id session.state))))])
    else
      match refuseOpOnKind session.kind job.call.op with
      | some why =>
        (shared, [.state (.returned caller (.error (.debugger
          ("Session `" ++ session.id ++ "` holds a " ++ session.kind.label ++ ". " ++ why))))])
      | none => (shared, [.call (.insert job caller)])
  | .insert job caller =>
    (shared.setWaiters (⟨job.id, job.call.op == .endSession⟩ :: shared.waiters),
      [.call (.send job caller)])
  | .send job caller =>
    if shared.pumping then (shared.enqueue job, [.call (.await job.id caller)])
    else
      ({ shared.removeWaiter job.id with turnedBack := job.id :: shared.turnedBack },
        [.state (.returned caller (.error (.lost (workerGone shared.session.id))))])
  | .await job caller =>
    match shared.answered job with
    | some reply => (shared, [.state (.returned caller reply)])
    | none =>
      if input.expired then
        (shared, [.call (.close job caller
          (shared.session.kind == .kernel && !shared.session.released))])
      else (shared, [.call (.await job caller)])
  | .close job caller preserve =>
    match shared.answered job with
    | some reply => (shared, [.state (.returned caller reply)])
    | none =>
      ({ shared with closed := job :: shared.closed }, shared.session.expired caller preserve)
  | .notify =>
    let job : Job := ⟨shared.nextId, Call.supervisor .preserveKernel⟩
    (if shared.pumping then shared.draw.enqueue job else shared.draw, [])
  | .answer job reply =>
    match shared.waiter job with
    | none => (shared, [])
    | some waiting =>
      (shared.removeWaiter job,
        if waiting.ending && shared.session.isGuarded && reply.isOk then
          [.state (.publishRelease job)]
        else [.call (.deliver job reply)])
  | .deliver job reply =>
    (shared.sendAnswer job reply,
      if shared.closed.contains job && job == openerJob then [.state (.settleOpen reply)] else [])
  | .failOutstanding why => (shared.failOutstanding why, [])
  | .lastAnswers =>
    ({ shared.failOutstanding (workerGone shared.session.id) with reading := false }, [])

def Section.exec (input : Input) (shared : Shared) : Section → Shared × List Section
  | .state step =>
    (shared.onSession (step.exec shared.session input).1, (step.exec shared.session input).2)
  | .call step => step.exec shared input

def Refused.reply (session : Session) : Refused → Reply
  | .recoveryRequired => .error (.recoveryRequired (staleHandle session.id session.state))
  | .stale => .error (.stale (staleHandle session.id session.state))

namespace Shared

def respond (shared : Shared) (job : Nat) (reply : Reply) : Shared :=
  { shared.removeWaiter job with
    answers := shared.answers ++ if (shared.waiter job).isSome then [(job, reply)] else [] }

def writeFailed (shared : Shared) (job : Job) : Shared :=
  { shared with
    pump := .responding job.id (.error (.lost (workerGone shared.session.id))) true }

def write (shared : Shared) (job : Job) : Write → Shared
  | .written =>
    if shared.connected then
      { shared with forwarded := shared.forwarded ++ [job], pump := .waiting }
    else shared.writeFailed job
  | .unencodable =>
    { shared with
      pump := .responding job.id
        (.error (.debugger "could not encode this operation for the engine worker")) false }
  | .failed => shared.writeFailed job

def gateJob (shared : Shared) (now : Nat) (job : Job) (rest : List Job) : Shared :=
  { shared with
    session := (shared.session.gate now job).1
    queue := rest
    pump :=
      match (shared.session.gate now job).2 with
      | some refused => .responding job.id (refused.reply shared.session) false
      | none => .writing job }

def pumpStep (shared : Shared) (input : Input) : Shared :=
  match shared.pump with
  | .waiting =>
    match shared.queue with
    | [] => shared
    | job :: rest => shared.gateJob input.now job rest
  | .writing job => shared.write job input.write
  | .responding job reply last =>
    { shared.respond job reply with pump := if last then .stopping else .waiting }
  | .stopping => { shared with pump := .stopped, queue := [] }
  | .stopped => shared

end Shared

def Message.sections (session : Session) : Message → List Section
  | .committed job =>
    if job == openerJob then [.state (.reach .committed), .state .commitOpening] else []
  | .opened job =>
    if job == openerJob then [.state (.reach .opened), .state .promoteOpened] else []
  | .kdPhase phase => [.state (.kdPhase phase)]
  | .targetReplaced why => [.state (.replaceTarget why)]
  | .done job reply =>
    (if session.kind == .kernel && reply.isRecoveryRequired then
      [.state (.refuseTakeover job)] else []) ++ [.call (.answer job reply)]

inductive Party
  | opener | reader
  | caller (n : Nat)
  deriving DecidableEq, Repr

abbrev Line := Threads Party Shared Section

inductive Entry
  | call (call : Call)
  | release (call : Call)
  | kernelHandoff (pid : Nat)
  | ended (reason : String)
  | compositeFailed (why : String)
  | close (reason : String)
  | preserveLiveControl (why : String)
  deriving DecidableEq, Repr

def Entry.start (shared : Shared) : Entry → Shared × List Section
  | .call asked =>
    (shared.draw, [.call (.submit ⟨shared.nextId, asked⟩ .plain)])
  | .release asked => (shared, [.call (.release asked)])
  | .kernelHandoff pid => (shared, [.state (.kernelHandoff pid)])
  | .ended reason => (shared, [.state (.ended reason)])
  | .compositeFailed why => (shared, [.state (.compositeFailed why)])
  | .close reason => (shared, [.state (.close reason)])
  | .preserveLiveControl why =>
    (shared, if shared.session.kind.isSecureKernelController then
      [.state (.preserveLiveControl why)] else [])

/-- Steps of a session's line.  `run` lets one party run its next section. -/
inductive LineAct
  | admits (accepted : Bool)
  | start (n : Nat) (entry : Entry)
  | run (party : Party) (input : Input)
  | pump (input : Input)
  | read
  | emit (message : Message)
  | exit
  deriving DecidableEq, Repr

namespace Line

def session (line : Line) : Session := line.shared.session

def onShared (line : Line) (shared : Shared) : Line := ⟨shared, line.programs⟩

/-- Admission: a session that is turned away before its opener was written is killed
where it stands, and one that is registered is opened. -/
def admits (line : Line) (accepted : Bool) : Line :=
  if line.shared.admission = .spawned then
    if accepted then
      line.put .opener { line.shared with admission := .registered }
        [.call (.submit ⟨openerJob, Call.new .opener⟩ .opening)]
    else
      line.put .opener { line.shared with admission := .turnedAway }
        [.state (.kill .turnedAway)]
  else line

def start (line : Line) (n : Nat) (entry : Entry) : Line :=
  if line.shared.admission = .registered ∧ line.programs (.caller n) = [] then
    line.put (.caller n) (entry.start line.shared).1 (entry.start line.shared).2
  else line

def read (line : Line) : Line :=
  if line.programs .reader = [] ∧ line.shared.reading = true then
    match line.shared.messages with
    | message :: rest =>
      line.put .reader { line.shared with messages := rest } (message.sections line.session)
    | [] =>
      if line.shared.connected then line
      else line.put .reader line.shared [.state .workerExited, .call .lastAnswers]
  else line

def emit (line : Line) (message : Message) : Line :=
  if line.shared.connected then
    match message with
    | .done job reply =>
      if job ∈ line.shared.forwarded.map Job.id ∧ job ∉ line.shared.replies.map Prod.fst then
        line.onShared { line.shared with
          replies := line.shared.replies ++ [(job, reply)]
          messages := line.shared.messages ++ [message] }
      else line
    | _ => line.onShared { line.shared with messages := line.shared.messages ++ [message] }
  else line

def step (line : Line) : LineAct → Line
  | .admits accepted => line.admits accepted
  | .start n entry => line.start n entry
  | .run party input => line.advance (Section.exec input) party
  | .pump input => line.onShared (line.shared.pumpStep input)
  | .read => line.read
  | .emit message => line.emit message
  | .exit => line.onShared { line.shared with connected := false }

end Line

/-- A session as `spawn` leaves it. -/
structure Session.Spawned (session : Session) : Prop where
  state : session.state = .opening
  claims : session.claims = {}
  waiters : session.waiters = []
  phase : session.phase = .started
  released : session.released = false
  kernelHandoffComplete : session.kernelHandoffComplete = false
  child : session.child = true

def remoteKernel : Session where
  kernelEndpoint := some (.net 50000)
  id := "s-1"
  kind := .kernel
  what := "net:port=50000"
  pid := 4242
  created := 0
  standing := ⟨.opening, 0, {}⟩
  owner := ⟨"local", 0⟩

theorem remoteKernel_spawned : remoteKernel.Spawned := ⟨rfl, rfl, rfl, rfl, rfl, rfl, rfl⟩

def Line.spawned (session : Session) : Line := ⟨{ session }, fun _ => []⟩

/-! ## What one step can do -/

inductive Shared.PumpMoves (shared : Shared) : Shared → Prop
  | rests : PumpMoves shared shared
  | gates (now : Nat) (job : Job) (rest : List Job) (hpump : shared.pump = .waiting)
      (hqueue : shared.queue = job :: rest) : PumpMoves shared (shared.gateJob now job rest)
  | writes (job : Job) (hpump : shared.pump = .writing job) (hconnected : shared.connected = true) :
      PumpMoves shared { shared with forwarded := shared.forwarded ++ [job], pump := .waiting }
  | turns (job : Job) (reply : Reply) (last : Bool) (hpump : shared.pump = .writing job) :
      PumpMoves shared { shared with pump := .responding job.id reply last }
  | responds (job : Nat) (reply : Reply) (last : Bool)
      (hpump : shared.pump = .responding job reply last) :
      PumpMoves shared
        { shared.respond job reply with pump := if last then .stopping else .waiting }
  | stops (hpump : shared.pump = .stopping) :
      PumpMoves shared { shared with pump := .stopped, queue := [] }

theorem Shared.pumpStep_moves (shared : Shared) (input : Input) :
    shared.PumpMoves (shared.pumpStep input) := by
  unfold Shared.pumpStep
  split
  · rename_i hpump
    split
    · exact .rests
    · rename_i job rest hqueue
      exact .gates input.now job rest hpump hqueue
  · rename_i job hpump
    unfold Shared.write
    split
    · split
      · rename_i hconnected
        exact .writes job hpump hconnected
      · exact .turns job _ _ hpump
    · exact .turns job _ _ hpump
    · exact .turns job _ _ hpump
  · rename_i job reply last hpump
    exact .responds job reply last hpump
  · rename_i hpump
    exact .stops hpump
  · exact .rests

inductive CallStep.Moves (shared : Shared) (input : Input) :
    CallStep → Shared → List Section → Prop
  | releasePreserved (call : Call) (hkernel : shared.session.kind = .kernel) :
      Moves shared input (.release call) shared [.state (.preserveKernel
        "release is unsafe while attach/controller state is unresolved")]
  | releaseSubmits (call : Call) :
      Moves shared input (.release call) shared.draw
        [.call (.submit ⟨shared.nextId, call⟩ .releasing)]
  | submitRefused (job : Job) (caller : Caller) (why : EngineError)
      (hwhy : shared.session.kernelUnresolved = true ∨ ∃ text, why = .debugger text) :
      Moves shared input (.submit job caller) shared [.state (.returned caller (.error why))]
  | submits (job : Job) (caller : Caller)
      (hkind : refuseOpOnKind shared.session.kind job.call.op = none) :
      Moves shared input (.submit job caller) shared [.call (.insert job caller)]
  | inserts (job : Job) (caller : Caller) :
      Moves shared input (.insert job caller)
        (shared.setWaiters (⟨job.id, job.call.op == .endSession⟩ :: shared.waiters))
        [.call (.send job caller)]
  | sends (job : Job) (caller : Caller) (hpumping : shared.pumping = true) :
      Moves shared input (.send job caller) (shared.enqueue job) [.call (.await job.id caller)]
  | turnsBack (job : Job) (caller : Caller) (hpumping : shared.pumping = false) :
      Moves shared input (.send job caller)
        { shared.removeWaiter job.id with turnedBack := job.id :: shared.turnedBack }
        [.state (.returned caller (.error (.lost (workerGone shared.session.id))))]
  | awaited (job : Nat) (caller : Caller) (reply : Reply)
      (hanswered : shared.answered job = some reply) :
      Moves shared input (.await job caller) shared [.state (.returned caller reply)]
  | expires (job : Nat) (caller : Caller) (hanswered : shared.answered job = none)
      (hexpired : input.expired = true) :
      Moves shared input (.await job caller) shared [.call (.close job caller
        (shared.session.kind == .kernel && !shared.session.released))]
  | awaits (job : Nat) (caller : Caller) (hanswered : shared.answered job = none) :
      Moves shared input (.await job caller) shared [.call (.await job caller)]
  | closeReturns (job : Nat) (caller : Caller) (preserve : Bool) (reply : Reply)
      (hanswered : shared.answered job = some reply) :
      Moves shared input (.close job caller preserve) shared [.state (.returned caller reply)]
  | closes (job : Nat) (caller : Caller) (preserve : Bool)
      (hanswered : shared.answered job = none) :
      Moves shared input (.close job caller preserve)
        { shared with closed := job :: shared.closed } (shared.session.expired caller preserve)
  | notifies (hpumping : shared.pumping = true) :
      Moves shared input .notify
        (shared.draw.enqueue ⟨shared.nextId, Call.supervisor .preserveKernel⟩) []
  | notifiesNobody (hpumping : shared.pumping = false) :
      Moves shared input .notify shared.draw []
  | unwaited (job : Nat) (reply : Reply) (hwaiter : shared.waiter job = none) :
      Moves shared input (.answer job reply) shared []
  | publishes (job : Nat) (waiting : Waiting) (hwaiter : shared.waiter job = some waiting)
      (hending : waiting.ending = true) :
      Moves shared input (.answer job .ok) (shared.removeWaiter job)
        [.state (.publishRelease job)]
  | answers (job : Nat) (reply : Reply) (waiting : Waiting)
      (hwaiter : shared.waiter job = some waiting) :
      Moves shared input (.answer job reply) (shared.removeWaiter job)
        [.call (.deliver job reply)]
  | delivers (job : Nat) (reply : Reply)
      (hreceived : shared.closed.contains job = false ∨ job ≠ openerJob) :
      Moves shared input (.deliver job reply) (shared.sendAnswer job reply) []
  | settles (reply : Reply) (hclosed : shared.closed.contains openerJob = true) :
      Moves shared input (.deliver openerJob reply) (shared.sendAnswer openerJob reply)
        [.state (.settleOpen reply)]
  | fails (why : String) :
      Moves shared input (.failOutstanding why) (shared.failOutstanding why) []
  | drains :
      Moves shared input .lastAnswers
        { shared.failOutstanding (workerGone shared.session.id) with reading := false } []

theorem CallStep.exec_moves (shared : Shared) (input : Input) (step : CallStep) :
    step.Moves shared input (step.exec shared input).1 (step.exec shared input).2 := by
  cases step with
  | release call =>
    simp only [CallStep.exec]
    split
    · rename_i hunsafe
      simp only [Bool.and_eq_true, beq_iff_eq] at hunsafe
      exact .releasePreserved call hunsafe.1.1
    · exact .releaseSubmits call
  | submit job caller =>
    simp only [CallStep.exec]
    split
    · rename_i hunresolved
      rw [Bool.and_eq_true] at hunresolved
      exact .submitRefused job caller _ (Or.inl hunresolved.1)
    · split
      · exact .submitRefused job caller _ (Or.inr ⟨_, rfl⟩)
      · rename_i hkind
        exact .submits job caller hkind
  | insert job caller => exact .inserts job caller
  | send job caller =>
    simp only [CallStep.exec]
    split
    · rename_i hpumping
      exact .sends job caller hpumping
    · rename_i hpumping
      exact .turnsBack job caller (by simpa using hpumping)
  | await job caller =>
    simp only [CallStep.exec]
    split
    · rename_i hanswered
      exact .awaited job caller _ hanswered
    · rename_i hanswered
      split
      · rename_i hexpired
        exact .expires job caller hanswered hexpired
      · exact .awaits job caller hanswered
  | close job caller preserve =>
    simp only [CallStep.exec]
    split
    · rename_i hanswered
      exact .closeReturns job caller preserve _ hanswered
    · rename_i hanswered
      exact .closes job caller preserve hanswered
  | notify =>
    simp only [CallStep.exec]
    split
    · rename_i hpumping
      exact .notifies hpumping
    · rename_i hpumping
      exact .notifiesNobody (by simpa using hpumping)
  | answer job reply =>
    simp only [CallStep.exec]
    split
    · rename_i hwaiter
      exact .unwaited job reply hwaiter
    · rename_i waiting hwaiter
      split
      · rename_i hconfirmed
        simp only [Bool.and_eq_true] at hconfirmed
        cases reply with
        | ok => exact .publishes job waiting hwaiter hconfirmed.1.1
        | error why => cases hconfirmed.2
      · exact .answers job reply waiting hwaiter
  | deliver job reply =>
    simp only [CallStep.exec]
    split
    · rename_i hclosed
      simp only [Bool.and_eq_true, beq_iff_eq] at hclosed
      obtain ⟨hclosed, rfl⟩ := hclosed
      exact .settles reply hclosed
    · rename_i hreceived
      exact .delivers job reply (by simpa [-List.contains_eq_mem, or_iff_not_imp_left] using hreceived)
  | failOutstanding why => exact .fails why
  | lastAnswers => exact .drains

namespace Line

inductive Moves (line : Line) : LineAct → Line → Prop
  | stays (act : LineAct) : Moves line act line
  | registers (hspawned : line.shared.admission = .spawned) :
      Moves line (.admits true) (line.put .opener { line.shared with admission := .registered }
        [.call (.submit ⟨openerJob, Call.new .opener⟩ .opening)])
  | turnsAway (hspawned : line.shared.admission = .spawned) :
      Moves line (.admits false) (line.put .opener { line.shared with admission := .turnedAway }
        [.state (.kill .turnedAway)])
  | starts (n : Nat) (entry : Entry) (hregistered : line.shared.admission = .registered)
      (hidle : line.programs (.caller n) = []) :
      Moves line (.start n entry)
        (line.put (.caller n) (entry.start line.shared).1 (entry.start line.shared).2)
  | runs (party : Party) (input : Input) (head : Section) (rest : List Section)
      (hprogram : line.programs party = head :: rest) :
      Moves line (.run party input) (line.put party (head.exec input line.shared).1
        ((head.exec input line.shared).2 ++ rest))
  | pumps (input : Input) (after : Shared) (hmoves : line.shared.PumpMoves after) :
      Moves line (.pump input) (line.onShared after)
  | reads (message : Message) (rest : List Message) (hreader : line.programs .reader = [])
      (hreading : line.shared.reading = true) (hmessages : line.shared.messages = message :: rest) :
      Moves line .read (line.put .reader { line.shared with messages := rest }
        (message.sections line.session))
  | ends (hreader : line.programs .reader = []) (hreading : line.shared.reading = true)
      (hmessages : line.shared.messages = []) (hconnected : line.shared.connected = false) :
      Moves line .read
        (line.put .reader line.shared [.state .workerExited, .call .lastAnswers])
  | reports (message : Message) (hreport : ∀ job reply, message ≠ .done job reply) :
      Moves line (.emit message)
        (line.onShared { line.shared with messages := line.shared.messages ++ [message] })
  | replies (job : Nat) (reply : Reply) (hforwarded : job ∈ line.shared.forwarded.map Job.id)
      (hfirst : job ∉ line.shared.replies.map Prod.fst) :
      Moves line (.emit (.done job reply)) (line.onShared { line.shared with
        replies := line.shared.replies ++ [(job, reply)]
        messages := line.shared.messages ++ [.done job reply] })
  | exits : Moves line .exit (line.onShared { line.shared with connected := false })

theorem step_moves (line : Line) (act : LineAct) : line.Moves act (line.step act) := by
  cases act with
  | admits accepted =>
    simp only [step, admits]
    split
    · rename_i hspawned
      cases accepted
      · exact .turnsAway hspawned
      · exact .registers hspawned
    · exact .stays _
  | start n entry =>
    simp only [step, start]
    split
    · rename_i hidle
      exact .starts n entry hidle.1 hidle.2
    · exact .stays _
  | run party input =>
    simp only [step]
    cases hprogram : line.programs party with
    | nil =>
      rw [Threads.advance_nil hprogram]
      exact .stays _
    | cons head rest =>
      rw [Threads.advance_cons hprogram]
      exact .runs party input head rest hprogram
  | pump input => exact .pumps input _ (line.shared.pumpStep_moves input)
  | read =>
    simp only [step, read]
    split
    · rename_i hidle
      split
      · rename_i message rest hmessages
        exact .reads message rest hidle.1 hidle.2 hmessages
      · rename_i hmessages
        split
        · exact .stays _
        · rename_i hconnected
          exact .ends hidle.1 hidle.2 hmessages (by simpa using hconnected)
    · exact .stays _
  | emit message =>
    simp only [step, emit]
    split
    · split
      · split
        · rename_i job reply hopen
          exact .replies job reply hopen.1 hopen.2
        · exact .stays _
      · rename_i hreport
        exact .reports message hreport
    · exact .stays _
  | exit => exact .exits

end Line

end WindbgMcp.Engine
