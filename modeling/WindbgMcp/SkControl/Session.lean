import WindbgMcp.SkControl.Protocol

/-! The client's session.  Every method makes its local checks, hands one operation to
`exchange` and checks the reply.  A call takes the line the provider answers with,
`none` when the request could not be written or no line could be read. -/
namespace WindbgMcp.SkControl
open Library

inductive Phase where
  | running
  | arming
  | stopped (event : HeldEvent)
deriving DecidableEq, Repr

structure ControlSession where
  target : TargetIdentity
  epoch : StopEpoch
  /-- The set of epochs this session has seen, newest first. -/
  issuedEpochs : List StopEpoch
  nextId : Nat
  capabilities : Option Capabilities
  phase : Phase
  poisoned : Bool
deriving DecidableEq, Repr

inductive Failure where
  /-- `ProviderRefusal`: a complete, aligned refusal. -/
  | refusal (error : ProviderError)
  /-- The request was not written or no line came back. -/
  | unread
  /-- A line that is not a response. -/
  | malformed (line : String)
  /-- The ready line of another revision of the protocol, shown as it stands. -/
  | unready (line : String)
  | said (text : String)
deriving DecidableEq, Repr

inductive Answer where
  | done
  | capabilities (value : Capabilities)
  | event (event : HeldEvent)
  | values (values : List RegisterValue)
  | vtl (vtl : Nat)
deriving DecidableEq, Repr

/-- A call's effect: the session it leaves, the request it wrote and its result. -/
structure Turn (α : Type) where
  session : ControlSession
  written : Option Request
  result : Except Failure α
deriving DecidableEq, Repr

namespace ControlSession

def greet (selector : TargetSelector) (hello : Hello) : Except String ControlSession := do
  if hello.protocol ≠ protocolVersion then
    .error ("provider protocol is " ++ toString hello.protocol ++ ", expected 2")
  selector.require hello.target
  let _ ← StopEpoch.new hello.epoch.value
  return { target := hello.target
           epoch := hello.epoch
           issuedEpochs := [hello.epoch]
           nextId := 1
           capabilities := none
           phase := .running
           poisoned := false }

/-- The banner is skipped up to the ready line; the hello behind it opens the session. -/
def openLines (parseHello : String → Option Hello) (selector : TargetSelector) :
    Nat → List (Option String) → List String → Except Failure (ControlSession × List String)
  | 0, _, _ =>
    .error (.said ("provider printed 64 lines without \"" ++ readyLine ++ "\""))
  | _ + 1, [], _ => .error .unread
  | _ + 1, none :: _, _ => .error .unread
  | count + 1, some line :: lines, skipped =>
    let ready := Text.trim line
    if "windbg-mcp-sk-control/".toList.isPrefixOf ready.toList ∧ ready ≠ readyLine then
      .error (.unready ready)
    else if ready = readyLine then
      match lines with
      | some helloLine :: _ =>
        match parseHello helloLine with
        | none => .error (.malformed helloLine)
        | some hello =>
          match greet selector hello with
          | .error text => .error (.said text)
          | .ok session => .ok (session, skipped)
      | _ => .error .unread
    else openLines parseHello selector count lines (skipped ++ [line])

def openSelected (parseHello : String → Option Hello) (selector : TargetSelector)
    (lines : List (Option String)) : Except Failure (ControlSession × List String) :=
  match selector.validate with
  | .error text => .error (.said text)
  | .ok _ => openLines parseHello selector maxBannerLines lines []

def held (session : ControlSession) : Option HeldEvent :=
  match session.phase with
  | .running | .arming => none
  | .stopped event => some event

def requireRegisterStop (session : ControlSession) : Except String Unit :=
  if session.phase = .running then
    .error "register access is refused while the target is running"
  else .ok ()

def requireStopped (session : ControlSession) : Except String Unit :=
  if session.held = none then .error "operation requires a held event" else .ok ()

def requireCapability (session : ControlSession) (capability : Capability) :
    Except String Unit :=
  match session.capabilities with
  | none => .error "capabilities must be negotiated before control operations"
  | some capabilities =>
    if capabilities.capabilities.contains capability then .ok ()
    else .error ("provider did not advertise " ++ capability.name)

def requireVector (session : ControlSession) (event : HeldEvent) : Except String Unit :=
  if event.vector = 3 then session.requireCapability .breakpointEvents else .ok ()

def validateRegisterNames (session : ControlSession) (registers : List RegisterName)
    (writes : Bool) : Except String Unit := do
  if registers.isEmpty ∨ maxRegisters < registers.length then
    .error "register request size must be in 1..=32"
  unique registers "register"
  match session.capabilities with
  | none => .error "capabilities were not negotiated"
  | some capabilities =>
    if capabilities.maxRegistersPerRequest < registers.length then
      .error "register request exceeds the provider's declared maximum"
    let allowed :=
      if writes then capabilities.writableRegisters else capabilities.readableRegisters
    match registers.find? fun register => !allowed.contains register with
    | some register =>
      .error ("provider does not support requested register " ++ register.name)
    | none => .ok ()

/-- What `exchange` does with a response to its own request: the session is poisoned
since before the request was written. -/
def judge (sent : ControlSession) (operation : Operation) (response : Response) :
    ControlSession × Except Failure ReplyValue :=
  match response.outcome with
  | .error error =>
    if response.epoch ≠ sent.epoch then
      (sent, .error (.said "an error response changed the epoch"))
    else ({ sent with poisoned := false }, .error (.refusal error))
  | .ok value =>
    if !operation.expects value then
      (sent, .error (.said "provider returned a reply for a different operation"))
    else if value.changesEpoch then
      if response.epoch ∈ sent.issuedEpochs then
        (sent, .error (.said
          "a state transition reused an epoch issued earlier in this session"))
      else
        match StopEpoch.new response.epoch.value with
        | .error text => (sent, .error (.said text))
        | .ok _ =>
          ({ sent with
              issuedEpochs := response.epoch :: sent.issuedEpochs
              epoch := response.epoch
              poisoned := false }, .ok value)
    else if response.epoch ≠ sent.epoch then
      (sent, .error (.said "a non-transitioning operation changed the epoch"))
    else ({ sent with poisoned := false }, .ok value)

section
variable (parse : String → Option Response)

/-- What `exchange` does with the line that answers request `id`. -/
def accept (sent : ControlSession) (id : Nat) (operation : Operation) (line : Option String) :
    ControlSession × Except Failure ReplyValue :=
  match line with
  | none => (sent, .error .unread)
  | some text =>
    match parse text with
    | none => (sent, .error (.malformed text))
    | some response =>
      if response.protocol ≠ protocolVersion ∨ response.id ≠ id ∨
          response.target ≠ sent.target then
        (sent, .error (.said
          "provider response did not match protocol, request id, and target identity"))
      else sent.judge operation response

def exchange (session : ControlSession) (operation : Operation) (line : Option String) :
    Turn ReplyValue :=
  if session.poisoned then
    ⟨session, none,
      .error (.said "control protocol desynchronised; no further request is allowed")⟩
  else if 2 ^ 64 ≤ session.nextId + 1 then
    ⟨session, none, .error (.said "control request id exhausted")⟩
  else
    let request :=
      { protocol := protocolVersion
        id := session.nextId
        target := session.target
        epoch := session.epoch
        operation := operation }
    let sent := { session with nextId := session.nextId + 1, poisoned := true }
    let (after, reply) := accept parse sent session.nextId operation line
    ⟨after, some request, reply⟩

/-- A method: its local checks, the exchange of its operation, and what it does with
the value of an accepted reply. -/
def guarded (session : ControlSession) (checks : Except String Unit) (operation : Operation)
    (line : Option String)
    (finish : ControlSession → ReplyValue → ControlSession × Except Failure Answer) :
    Turn Answer :=
  match checks with
  | .error text => ⟨session, none, .error (.said text)⟩
  | .ok _ =>
    let turn := exchange parse session operation line
    match turn.result with
    | .error failure => ⟨turn.session, turn.written, .error failure⟩
    | .ok value =>
      let (after, result) := finish turn.session value
      ⟨after, turn.written, result⟩

def poison (session : ControlSession) (text : String) :
    ControlSession × Except Failure Answer :=
  ({ session with poisoned := true }, .error (.said text))

def checkCapabilities (session : ControlSession) :
    ReplyValue → ControlSession × Except Failure Answer
  | .capabilities value =>
    match value.validate with
    | .error text => (session, .error (.said text))
    | .ok _ => ({ session with capabilities := some value }, .ok (.capabilities value))
  | _ => (session, .error (.said "provider returned the wrong reply to capabilities"))

/-- `begin_arm`, `finish_arm` and `release`: the one reply moves the session to `phase`. -/
def checkMoved (expected : ReplyValue) (phase : Phase) (method : String)
    (session : ControlSession) (value : ReplyValue) :
    ControlSession × Except Failure Answer :=
  if value ≠ expected then
    (session, .error (.said ("provider returned the wrong reply to " ++ method)))
  else ({ session with phase := phase }, .ok .done)

def checkPublished (event : HeldEvent) (session : ControlSession) :
    ReplyValue → ControlSession × Except Failure Answer
  | .stopPublished echoed =>
    if echoed ≠ event then poison session "provider changed the held-event identity"
    else ({ session with phase := .stopped event }, .ok .done)
  | _ => (session, .error (.said "provider returned the wrong reply to publish_stop"))

def checkHeld (session : ControlSession) : ReplyValue → ControlSession × Except Failure Answer
  | .heldEvent event =>
    match session.requireVector event with
    | .error text => (session, .error (.said text))
    | .ok _ =>
      match event.validate session.target with
      | .error text => (session, .error (.said text))
      | .ok _ =>
        if some event ≠ session.held then
          poison session "provider returned a different held-event identity"
        else (session, .ok (.event event))
  | _ => (session, .error (.said "provider returned the wrong reply to held_event"))

def checkRead (registers : List RegisterName) (session : ControlSession) :
    ReplyValue → ControlSession × Except Failure Answer
  | .registers values =>
    match validateValues registers values with
    | .error text => poison session text
    | .ok _ => (session, .ok (.values values))
  | _ => (session, .error (.said "provider returned the wrong reply to read_registers"))

def checkWritten (writes : List RegisterWrite) (session : ControlSession) :
    ReplyValue → ControlSession × Except Failure Answer
  | .registersWritten values =>
    match validateValues (writes.map RegisterWrite.name) values with
    | .error text => poison session text
    | .ok _ =>
      match validateGuardedWrites writes values with
      | .error text => poison session text
      | .ok _ => (session, .ok (.values values))
  | _ => (session, .error (.said "provider returned the wrong reply to write_registers"))

def checkActiveVtl (session : ControlSession) :
    ReplyValue → ControlSession × Except Failure Answer
  | .activeVtl vtl =>
    if 15 < vtl then
      poison session ("provider reported active VTL " ++ toString vtl ++ ", outside 0..=15")
    else (session, .ok (.vtl vtl))
  | _ => (session, .error (.said "provider returned the wrong reply to active_vtl"))

/-- The method `capabilities`. -/
def negotiate (session : ControlSession) (line : Option String) : Turn Answer :=
  session.guarded parse (.ok ()) .capabilities line checkCapabilities

def beginArm (session : ControlSession) (line : Option String) : Turn Answer :=
  session.guarded parse
    (do
      session.requireCapability .beginArm
      if session.phase ≠ .running then .error "begin_arm requires running state")
    .beginArm line (checkMoved .armBegun .arming "begin_arm")

def finishArm (session : ControlSession) (line : Option String) : Turn Answer :=
  session.guarded parse
    (do
      session.requireCapability .finishArm
      if session.phase ≠ .arming then .error "finish_arm requires arming state")
    .finishArm line (checkMoved .armFinished .running "finish_arm")

def publishStop (session : ControlSession) (event : HeldEvent) (line : Option String) :
    Turn Answer :=
  session.guarded parse
    (do
      session.requireCapability .publishStop
      session.requireVector event
      if session.phase ≠ .running then .error "cannot publish a second event while one is held"
      event.validate session.target)
    (.publishStop event) line (checkPublished event)

def heldEvent (session : ControlSession) (line : Option String) : Turn Answer :=
  session.guarded parse
    (do
      session.requireStopped
      session.requireCapability .heldEvent)
    .heldEvent line checkHeld

def readRegisters (session : ControlSession) (registers : List RegisterName)
    (line : Option String) : Turn Answer :=
  session.guarded parse
    (do
      session.requireRegisterStop
      session.requireCapability .readRegisters
      session.validateRegisterNames registers false)
    (.readRegisters registers) line (checkRead registers)

def writeRegisters (session : ControlSession) (writes : List RegisterWrite)
    (line : Option String) : Turn Answer :=
  session.guarded parse
    (do
      session.requireRegisterStop
      session.requireCapability .writeRegisters
      if writes.isEmpty then .error "write_registers requires at least one guarded write"
      session.validateRegisterNames (writes.map RegisterWrite.name) true)
    (.writeRegisters writes) line (checkWritten writes)

def activeVtl (session : ControlSession) (line : Option String) : Turn Answer :=
  session.guarded parse (session.requireCapability .activeVtl) .activeVtl line checkActiveVtl

def release (session : ControlSession) (line : Option String) : Turn Answer :=
  session.guarded parse
    (do
      session.requireStopped
      session.requireCapability .release)
    .release line (checkMoved .released .running "release")

def call (session : ControlSession) (operation : Operation) (line : Option String) :
    Turn Answer :=
  match operation with
  | .capabilities => session.negotiate parse line
  | .beginArm => session.beginArm parse line
  | .finishArm => session.finishArm parse line
  | .publishStop event => session.publishStop parse event line
  | .heldEvent => session.heldEvent parse line
  | .readRegisters registers => session.readRegisters parse registers line
  | .writeRegisters writes => session.writeRegisters parse writes line
  | .activeVtl => session.activeVtl parse line
  | .release => session.release parse line

end

end ControlSession

end WindbgMcp.SkControl
