import WindbgMcp.KdWire.Link

/-! How a break-in reaches the serving loop: the transport reader raises a wake
for it and queues its frame, and the loop meets the two in either order.  Wakes
and queued messages carry a serial that names the message they stem from; it is
an annotation the modelled code never reads. -/
namespace WindbgMcp.KdTarget

open KdWire

inductive TransportMessage where
  | frame (frame : Frame)
  | disconnected
  | failed (why : String)
deriving DecidableEq, Repr

inductive WaitWakeReason where
  | breakIn
  | reset
  | disconnected
  | transport (why : String)
  | idle
deriving DecidableEq, Repr

structure Wake where
  reason : WaitWakeReason
  serial : Nat
deriving DecidableEq, Repr

structure Queued where
  message : TransportMessage
  serial : Nat
deriving DecidableEq, Repr

def TransportMessage.wakeReason : TransportMessage → Option WaitWakeReason
  | .frame .breakIn => some .breakIn
  | .frame (.control packetType _) => if packetType = packetTypeReset then some .reset else none
  | .frame (.malformed why fatal) => if fatal then some (.transport why) else none
  | .frame (.data _) => none
  | .disconnected => some .disconnected
  | .failed why => some (.transport why)

def Queued.wake? (queued : Queued) : Option Wake :=
  queued.message.wakeReason.map fun reason => ⟨reason, queued.serial⟩

/-- One interruptible wait.  `wait` is its identity; the dispatcher answers a cut
wait with a break wake only if `breakRequested` is set. -/
structure WaitActivity where
  wait : Nat
  breakRequested : Bool
deriving DecidableEq, Repr

def WaitActivity.requestBreak (activity : WaitActivity) : WaitActivity :=
  { activity with breakRequested := true }

/-- `rendezvous` is a user go, `cancel` a user trace, and `defer` the debugger
engine's own displacement of a hit breakpoint. -/
inductive BreakInPolicy where
  | rendezvous
  | cancel
  | defer
deriving DecidableEq, Repr

structure ActiveWait where
  activity : WaitActivity
  reason : Option Wake
  breakIn : BreakInPolicy
deriving DecidableEq, Repr

structure WaitWakeState where
  active : Option ActiveWait
  pending : List Wake
deriving DecidableEq, Repr

namespace WaitWakeState

def isBreakIn (wake : Wake) : Bool := wake.reason == .breakIn

def «begin» (state : WaitWakeState) (activity : WaitActivity) (breakIn : BreakInPolicy) :
    Option WaitActivity × WaitWakeState :=
  if breakIn = .defer ∧ state.pending.head?.any isBreakIn then
    (none, { state with active := some ⟨activity, none, breakIn⟩ })
  else
    let reason := state.pending.head?
    let activity :=
      if breakIn = .rendezvous ∧ reason.any isBreakIn then activity.requestBreak else activity
    (reason.map fun _ => activity,
      { active := some ⟨activity, reason, breakIn⟩, pending := state.pending.tail })

def finish (state : WaitWakeState) : Option Wake × WaitWakeState :=
  (state.active.bind (·.reason), { state with active := none })

def request (state : WaitWakeState) (expected : Option Nat) (wake : Wake) :
    Option WaitActivity × WaitWakeState :=
  match state.active with
  | none =>
    (none, if expected.isNone then { state with pending := state.pending ++ [wake] } else state)
  | some wait =>
    if expected.any (· ≠ wait.activity.wait) ∨ wait.reason.isSome then
      (none, state)
    else if wait.breakIn = .defer ∧ isBreakIn wake then
      (none, { state with pending := state.pending ++ [wake] })
    else
      let activity :=
        if wait.breakIn = .rendezvous ∧ isBreakIn wake then wait.activity.requestBreak
        else wait.activity
      (some activity, { state with active := some { wait with activity, reason := some wake } })

def pairs : WaitWakeReason → Frame → Bool
  | .breakIn, .breakIn => true
  | .reset, .control packetType _ => packetType == packetTypeReset
  | .transport _, .malformed _ fatal => fatal
  | _, _ => false

def consumeFrame (state : WaitWakeState) (frame : Frame) : WaitWakeState :=
  if state.pending.head?.any fun wake => pairs wake.reason frame then
    { state with pending := state.pending.tail }
  else state

end WaitWakeState

structure StoppedBreakIn where
  deferred : Bool
  servedWhileRunning : Bool
deriving DecidableEq, Repr

namespace StoppedBreakIn

def receive (stopped : StoppedBreakIn) (packetAwaitingAcknowledgement : Bool) :
    Bool × StoppedBreakIn :=
  if packetAwaitingAcknowledgement then (false, { stopped with deferred := true })
  else (true, stopped)

def takeForContinue (stopped : StoppedBreakIn) : Bool × StoppedBreakIn :=
  (stopped.deferred, { stopped with deferred := false })

def served (stopped : StoppedBreakIn) : StoppedBreakIn :=
  { stopped with servedWhileRunning := true }

def takeServedFrame (stopped : StoppedBreakIn) : Bool × StoppedBreakIn :=
  (stopped.servedWhileRunning, { stopped with servedWhileRunning := false })

def reset (_ : StoppedBreakIn) : StoppedBreakIn := ⟨false, false⟩

end StoppedBreakIn

/-! ## The serving loop -/

inductive Mode where
  | stopped
  | running
  | ended
deriving DecidableEq, Repr

inductive BreakInAnswer where
  | consumed
  | resent
  | deferred
deriving DecidableEq, Repr

/-- What the state behind a request decides: the response to one that is no
continue, whether a staged disarm refuses a continue, and whether a breakpoint
stands displaced.  All three are left open. -/
structure Handling where
  response : List UInt8
  refused : Bool
  displaced : Bool
deriving DecidableEq, Repr

def manipulateBytes : Nat := 0x38
def dbgkdContinueApi : UInt32 := 0x3136
def dbgkdContinueApi2 : UInt32 := 0x313c

/-- `ManipulateRequest::decode` followed by `continue_trace`: the trace flag of a
continue request. -/
def continueTrace (payload : List UInt8) : Option Bool :=
  if payload.length < manipulateBytes then none
  else if word payload 0 = dbgkdContinueApi then some false
  else if word payload 0 = dbgkdContinueApi2 then some (word payload 20 != 0)
  else none

def breakInPolicy (trace displaced : Bool) : BreakInPolicy :=
  if !trace && displaced then .defer else if trace then .cancel else .rendezvous

/-- How a running wait comes back: with a natural stop, with the break wake
(after which the rendezvous retains a stop or fails), or with another error. -/
inductive WaitEnd where
  | stop
  | breakWake (retained : Bool)
  | error
deriving DecidableEq, Repr

inductive Move where
  | decode (message : TransportMessage)
  | queue
  | dequeue (handling : Handling)
  | resumeRefused
  | waitEnds (how : WaitEnd)
  | idleExpires (wait : Nat)
deriving DecidableEq, Repr

structure Server where
  wake : WaitWakeState
  /-- The message whose wake the reader has raised and which it queues next. -/
  hand : Option Queued
  queue : List Queued
  /-- Everything the reader has decoded; a serial is an index into it. -/
  decoded : List TransportMessage
  waits : Nat
  stopped : StoppedBreakIn
  link : TargetLink
  mode : Mode
  /-- Serials of the break-ins whose wake produced a running-target rendezvous. -/
  served : List Nat
  answers : List (Nat × BreakInAnswer)
deriving DecidableEq, Repr

namespace Server

def undelivered (server : Server) : List Queued := server.queue ++ server.hand.toList

variable (report : List UInt8)

/-- `send_stop`: a refused send ends the loop. -/
def sendStop (server : Server) : Server :=
  match server.link.send packetTypeStateChange64 report with
  | (.ok _, link) => { server with link := link, mode := .stopped }
  | (.error _, link) => { server with link := link, mode := .ended }

def start : Server where
  wake := ⟨none, []⟩
  hand := none
  queue := []
  decoded := []
  waits := 0
  stopped := ⟨false, false⟩
  link := (TargetLink.new.send packetTypeStateChange64 report).2
  mode := .stopped
  served := []
  answers := []

def serveBreakIn (server : Server) (serial : Nat) : Server :=
  let taken := server.stopped.takeServedFrame
  if taken.1 then
    { server with stopped := taken.2, answers := server.answers ++ [(serial, .consumed)] }
  else
    let received := taken.2.receive server.link.awaitingAcknowledgement
    if received.1 then
      sendStop report
        { server with stopped := received.2, answers := server.answers ++ [(serial, .resent)] }
    else
      { server with stopped := received.2, answers := server.answers ++ [(serial, .deferred)] }

def serveContinue (server : Server) (trace : Bool) (handling : Handling) : Server :=
  let taken := server.stopped.takeForContinue
  if taken.1 then sendStop report { server with stopped := taken.2 }
  else if handling.refused then sendStop report { server with stopped := taken.2 }
  else
    let breakIn := breakInPolicy trace handling.displaced
    { server with
      stopped := taken.2
      wake := (server.wake.begin ⟨server.waits, false⟩ breakIn).2
      waits := server.waits + 1
      mode := .running }

def servePacket (server : Server) (packet : DataPacket) (handling : Handling) : Server :=
  if packet.packetType ≠ packetTypeStateManipulate then server
  else
    match continueTrace packet.payload with
    | some trace => serveContinue report server trace handling
    | none =>
      match server.link.send packetTypeStateManipulate handling.response with
      | (.ok _, link) => { server with link := link }
      | (.error _, link) => { server with link := link, mode := .ended }

def serveFrame (server : Server) (frame : Frame) (serial : Nat) (handling : Handling) : Server :=
  let inbound := server.link.receive frame
  let server :=
    { server with wake := server.wake.consumeFrame frame, link := inbound.2 }
  if inbound.1.protocolError.isSome then { server with mode := .ended }
  else if inbound.1.breakIn then serveBreakIn report server serial
  else if inbound.1.peerReset then sendStop report { server with stopped := server.stopped.reset }
  else
    match inbound.1.packet with
    | some packet => servePacket report server packet handling
    | none => server

def step (server : Server) : Move → Server
  | .decode message =>
    match server.hand with
    | some _ => server
    | none =>
      let queued : Queued := ⟨message, server.decoded.length⟩
      { server with
        wake := match queued.wake? with
          | some wake => (server.wake.request none wake).2
          | none => server.wake
        hand := some queued
        decoded := server.decoded ++ [message] }
  | .queue => { server with queue := server.undelivered, hand := none }
  | .dequeue handling =>
    match server.mode, server.queue with
    | .stopped, ⟨.frame frame, serial⟩ :: rest =>
      serveFrame report { server with queue := rest } frame serial handling
    -- a disconnect or a transport failure ends the connection where it is read
    | .stopped, _ :: _ => { server with mode := .ended }
    | _, _ => server
  | .resumeRefused =>
    if server.mode = .running then
      sendStop report { server with wake := server.wake.finish.2 }
    else server
  | .waitEnds how =>
    if server.mode = .running then
      let finished := server.wake.finish
      let server' := { server with wake := finished.2 }
      let breakWakes := server.wake.active.any (·.activity.breakRequested)
      match how, finished.1 with
      | .stop, _ => sendStop report server'
      | .breakWake true, some ⟨.breakIn, serial⟩ =>
        if breakWakes then
          sendStop report
            { server' with
              stopped := server.stopped.served
              served := server.served ++ [serial] }
        else server
      | _, _ => { server' with mode := .ended }
    else server
  -- an idle expiry stems from no message, so its serial names none
  | .idleExpires wait =>
    { server with wake := (server.wake.request (some wait) ⟨.idle, server.decoded.length⟩).2 }

end Server

end WindbgMcp.KdTarget
