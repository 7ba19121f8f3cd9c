import WindbgMcp.Library.Fallible
import WindbgMcp.SkControl.Protocol

/-! The provider's end of the control protocol: the register hypercalls of its probe and the
handler of one request.  The hypervisor answers each hypercall as the world says: the device
call fails, the hypercall is refused with a status, or a set leaves something else in its
register.  A read without a status reports what the register holds. -/
namespace WindbgMcp.SkControl
open Library

structure RegisterAddress where
  partition : Nat
  vp : Nat
  inputVtl : Nat
  number : Nat
deriving DecidableEq, Repr

structure Machine where
  registers : RegisterAddress → Nat × Nat
  /-- The hypercalls made so far. -/
  calls : Nat

structure Behaviour where
  /-- The device call fails with this text. -/
  failed : Option String := none
  status : Nat := 0
  /-- What a read reports beside a nonzero status. -/
  words : Nat × Nat := (0, 0)
  /-- What a set leaves behind in place of its value. -/
  left : Option (Nat × Nat) := none
  /-- What a set makes of a register it does not name. -/
  others : RegisterAddress → Nat × Nat → Nat × Nat := fun _ held => held

/-- The hypervisor behind the provider: what it makes of each hypercall, in whatever order.  A
set of one register is relied on to leave the others alone. -/
structure World where
  behaviour : Nat → Behaviour
  sets_alone : ∀ call address held, (behaviour call).others address held = held

def registerNumber : RegisterName → Nat
  | .rax => 0x00020000 | .rcx => 0x00020001 | .rdx => 0x00020002 | .rbx => 0x00020003
  | .rsp => 0x00020004 | .rbp => 0x00020005 | .rsi => 0x00020006 | .rdi => 0x00020007
  | .r8 => 0x00020008 | .r9 => 0x00020009 | .r10 => 0x0002000a | .r11 => 0x0002000b
  | .r12 => 0x0002000c | .r13 => 0x0002000d | .r14 => 0x0002000e | .r15 => 0x0002000f
  | .rip => 0x00020010 | .rflags => 0x00020011 | .cr3 => 0x00040002
  | .dr0 => 0x00050000 | .dr1 => 0x00050001 | .dr2 => 0x00050002 | .dr3 => 0x00050003
  | .dr6 => 0x00050004 | .dr7 => 0x00050005
  | .es => 0x00060000 | .cs => 0x00060001 | .ss => 0x00060002 | .ds => 0x00060003
  | .fs => 0x00060004 | .gs => 0x00060005 | .vsmVpStatus => 0x000d0003

structure RegisterWord where
  status : Nat
  low : Nat
  high : Nat
deriving DecidableEq, Repr

namespace RegisterWord

def value (word : RegisterWord) (register : RegisterName) : Except String (Nat × Nat) :=
  if word.status ≠ 0 then
    .error (register.name ++ " read failed with HV_STATUS 0x" ++ Text.hexPadded 4 word.status)
  else .ok (word.low, word.high)

/-- `RegisterWord::low`. -/
def lowWord (word : RegisterWord) (register : RegisterName) : Except String Nat := do
  return (← word.value register).1

end RegisterWord

namespace Probe

variable (world : World) (partition vp : Nat)

def call : Fallible Machine Behaviour := do
  let machine ← get
  set { machine with calls := machine.calls + 1 }
  match (world.behaviour machine.calls).failed with
  | some text => throw text
  | none => return world.behaviour machine.calls

def readRegister (inputVtl : Nat) (register : RegisterName) : Fallible Machine RegisterWord := do
  let behaviour ← call world
  let machine ← get
  let (low, high) :=
    if behaviour.status = 0 then
      machine.registers ⟨partition, vp, inputVtl, registerNumber register⟩
    else behaviour.words
  return ⟨behaviour.status, low, high⟩

def readNamed (register : RegisterName) : Fallible Machine RegisterWord :=
  readRegister world partition vp 0x11 register

def readActiveVtl : Fallible Machine RegisterWord :=
  readRegister world partition vp 0 .vsmVpStatus

/-- `HvCallSetVpRegisters` of one register, whatever the device then says of it. -/
def setRegister (register : RegisterName) (value : Nat × Nat) : Fallible Machine Behaviour := do
  let machine ← get
  let behaviour := world.behaviour machine.calls
  let address : RegisterAddress := ⟨partition, vp, 0x11, registerNumber register⟩
  set { machine with
    registers := fun other =>
      if other = address then behaviour.left.getD value
      else behaviour.others other (machine.registers other) }
  call world

def writeRegister (register : RegisterName) (low high : Nat) : Fallible Machine Unit := do
  let behaviour ← setRegister world partition vp register (low, high)
  if behaviour.status ≠ 0 then
    throw ("setting " ++ register.name ++ " failed with HV_STATUS 0x" ++
      Text.hexPadded 4 behaviour.status)
  else
    let word ← readNamed world partition vp register
    let observed ← liftM (word.value register)
    if observed = (low, high) then return ()
    else
      throw ("setting " ++ register.name ++ " read back 0x" ++ Text.hexPadded 16 observed.1 ++
        "/0x" ++ Text.hexPadded 16 observed.2 ++ ", expected 0x" ++ Text.hexPadded 16 low ++
        "/0x" ++ Text.hexPadded 16 high)

end Probe

inductive ControlProvider.Phase where
  | running
  | arming
  | stopped
deriving DecidableEq, Repr

def ControlProvider.Phase.word : ControlProvider.Phase → String
  | running => "running"
  | arming => "arming"
  | stopped => "stopped"

def readable : List RegisterName :=
  [.rax, .rcx, .rdx, .rbx, .rbp, .rsi, .rdi, .r8, .r9, .r10, .r11, .r12, .r13, .r14, .r15,
    .rip, .rsp, .rflags, .cr3, .cs, .dr0, .dr1, .dr2, .dr3, .dr6, .dr7, .ds, .es, .fs, .gs, .ss,
    .vsmVpStatus]

/-- What the provider answers `capabilities` with. -/
def providerCapabilities : Capabilities where
  capabilities :=
    [.beginArm, .finishArm, .publishStop, .heldEvent, .readRegisters, .writeRegisters, .release,
      .breakpointEvents, .activeVtl]
  readableRegisters := readable
  writableRegisters := readable.filter RegisterName.writable
  maxRegistersPerRequest := 32
  requiresStopEpoch := true
  writesWhileRunning := false

/-- A new epoch, from what `generate_token` returned. -/
def newEpoch (phase : ControlProvider.Phase) (token : Except String String) :
    Except String StopEpoch := do
  StopEpoch.new (phase.word ++ "-" ++ (← token))

structure ControlProvider where
  target : TargetIdentity
  epoch : StopEpoch
  partition : Nat
  vp : Nat
  allowTransitionCr3 : Bool
  phase : ControlProvider.Phase
  event : Option HeldEvent
deriving DecidableEq, Repr

namespace ControlProvider

/-- The provider that `open` returns, once it has checked the target. -/
def opened (target : TargetIdentity) (epoch : StopEpoch) (allowTransitionCr3 : Bool) :
    ControlProvider where
  target := target
  epoch := epoch
  partition := target.partitionId
  vp := target.vp
  allowTransitionCr3 := allowTransitionCr3
  phase := .running
  event := none

variable (world : World) (provider : ControlProvider)

def readNamed (register : RegisterName) : Fallible Machine RegisterWord :=
  Probe.readNamed world provider.partition provider.vp register

def writeRegister (register : RegisterName) (low high : Nat) : Fallible Machine Unit :=
  Probe.writeRegister world provider.partition provider.vp register low high

def readLow (register : RegisterName) : Fallible Machine Nat := do
  let word ← readNamed world provider register
  liftM (word.lowWord register)

def readValue (register : RegisterName) : Fallible Machine RegisterValue := do
  let word ← readNamed world provider register
  return ⟨register, word.status, word.low, word.high⟩

structure Handled where
  provider : ControlProvider
  machine : Machine
  outcome : Except ProviderError ReplyValue

def enter (phase : ControlProvider.Phase) (event : Option HeldEvent) (token : Except String String)
    (machine : Machine) (value : ReplyValue) : Handled :=
  let moved := { provider with phase := phase, event := event }
  match newEpoch phase token with
  | .ok epoch => ⟨{ moved with epoch := epoch }, machine, .ok value⟩
  | .error text => ⟨moved, machine, .error ⟨.provider, text⟩⟩

def checkCr3 (machine : Machine) : Except ProviderError Unit × Machine :=
  match (readLow world provider .cr3).result machine with
  | (.error text, after) => (.error ⟨.provider, text⟩, after)
  | (.ok cr3, after) =>
    if cr3 = 0 ∨ cr3 % 0x1000 ≠ 0 then
      (.error ⟨.wrongTarget, "stop CR3 is zero or not page aligned"⟩, after)
    else if cr3 ≠ provider.target.expectedCr3 ∧ !provider.allowTransitionCr3 then
      (.error ⟨.wrongTarget, "CR3 changed before stop publication"⟩, after)
    else (.ok (), after)

def publishStop (event : HeldEvent) (token : Except String String) (machine : Machine) :
    Handled :=
  if provider.phase ≠ .running then
    ⟨provider, machine, .error ⟨.running, "publish_stop requires running state"⟩⟩
  else
    match event.validate provider.target with
    | .error text => ⟨provider, machine, .error ⟨.provider, text⟩⟩
    | .ok _ =>
      match checkCr3 world provider machine with
      | (.error error, after) => ⟨provider, after, .error error⟩
      | (.ok _, after) =>
        enter provider .stopped (some event) token after (.stopPublished event)

def heldEvent (machine : Machine) : Handled :=
  match provider.phase, provider.event with
  | .stopped, some event => ⟨provider, machine, .ok (.heldEvent event)⟩
  | _, _ => ⟨provider, machine, .error ⟨.notStopped, "there is no held event"⟩⟩

def readValues (registers : List RegisterName) (reply : List RegisterValue → ReplyValue)
    (machine : Machine) : Handled :=
  match (registers.mapM (readValue world provider)).result machine with
  | (.ok values, after) => ⟨provider, after, .ok (reply values)⟩
  | (.error text, after) => ⟨provider, after, .error ⟨.provider, text⟩⟩

def readRegisters (registers : List RegisterName) (machine : Machine) : Handled :=
  if provider.phase = .running then
    ⟨provider, machine, .error ⟨.running, "register reads are refused while running"⟩⟩
  else if registers.isEmpty ∨ 32 < registers.length ∨ ¬ registers.Nodup ∨
      registers.any fun name => !readable.contains name then
    ⟨provider, machine, .error ⟨.unsupportedRegister, "invalid register request"⟩⟩
  else readValues world provider registers .registers machine

/-- Every register still holds what its write expects.  What they hold is kept for a
rollback. -/
def compare : List RegisterWrite → Machine →
    Except ProviderError (List (RegisterName × Nat)) × Machine
  | [], machine => (.ok [], machine)
  | write :: writes, machine =>
    match (readLow world provider write.name).result machine with
    | (.error text, after) => (.error ⟨.provider, text⟩, after)
    | (.ok current, after) =>
      if current ≠ write.expected then
        (.error ⟨.guardMismatch, write.name.name ++ " changed before write"⟩, after)
      else
        match compare writes after with
        | (.error error, last) => (.error error, last)
        | (.ok before, last) => (.ok ((write.name, current) :: before), last)

def restore : List (RegisterName × Nat) → Machine → List String × Machine
  | [], machine => ([], machine)
  | (name, value) :: before, machine =>
    match (writeRegister world provider name value 0).result machine with
    | (.ok _, after) => restore before after
    | (.error text, after) =>
      let (failures, last) := restore before after
      ((name.name ++ ": " ++ text) :: failures, last)

def rollbackFailedRegisterWrite (before : List (RegisterName × Nat)) (attempted : Nat)
    (machine : Machine) : List String × Machine :=
  restore world provider (before.take (attempted + 1)).reverse machine

def rollbackDetail (primary : String) (failures : List String) : String :=
  if failures.isEmpty then "register write failed and was rolled back: " ++ primary
  else
    "register write failed: " ++ primary ++ "; rollback also failed: " ++
      "; ".intercalate failures

/-- The writes, one after the other, `applied` of them having been made before. -/
def applyWrites (before : List (RegisterName × Nat)) : Nat → List RegisterWrite → Machine →
    Except ProviderError Unit × Machine
  | _, [], machine => (.ok (), machine)
  | applied, write :: writes, machine =>
    match (writeRegister world provider write.name write.value 0).result machine with
    | (.ok _, after) => applyWrites before (applied + 1) writes after
    | (.error primary, after) =>
      let (failures, last) := rollbackFailedRegisterWrite world provider before applied after
      (.error ⟨.provider, rollbackDetail primary failures⟩, last)

def writeRegisters (writes : List RegisterWrite) (machine : Machine) : Handled :=
  let names := writes.map RegisterWrite.name
  if provider.phase = .running then
    ⟨provider, machine, .error ⟨.running, "register writes are refused while running"⟩⟩
  else if writes.isEmpty ∨ 32 < writes.length ∨ ¬ names.Nodup ∨
      names.any fun name => !name.writable then
    ⟨provider, machine, .error ⟨.unsupportedRegister, "invalid register write request"⟩⟩
  else
    match compare world provider writes machine with
    | (.error error, after) => ⟨provider, after, .error error⟩
    | (.ok before, after) =>
      match applyWrites world provider before 0 writes after with
      | (.error error, last) => ⟨provider, last, .error error⟩
      | (.ok _, last) => readValues world provider names .registersWritten last

def activeVtl (machine : Machine) : Handled :=
  if provider.phase ≠ .running then
    ⟨provider, machine, .error ⟨.running, "active_vtl requires running state"⟩⟩
  else
    let read : Fallible Machine Nat := do
      let word ← Probe.readActiveVtl world provider.partition provider.vp
      liftM (word.lowWord .vsmVpStatus)
    match read.result machine with
    | (.ok value, after) => ⟨provider, after, .ok (.activeVtl (value % 16))⟩
    | (.error text, after) => ⟨provider, after, .error ⟨.provider, text⟩⟩

/-- The operation of a request whose protocol, target and epoch are right. -/
def perform (token : Except String String) (machine : Machine) : Operation → Handled
  | .capabilities => ⟨provider, machine, .ok (.capabilities providerCapabilities)⟩
  | .beginArm =>
    if provider.phase ≠ .running then
      ⟨provider, machine, .error ⟨.running, "begin_arm requires running state"⟩⟩
    else enter provider .arming provider.event token machine .armBegun
  | .finishArm =>
    if provider.phase ≠ .arming then
      ⟨provider, machine, .error ⟨.running, "finish_arm requires arming state"⟩⟩
    else enter provider .running provider.event token machine .armFinished
  | .publishStop event => publishStop world provider event token machine
  | .heldEvent => heldEvent provider machine
  | .readRegisters registers => readRegisters world provider registers machine
  | .writeRegisters writes => writeRegisters world provider writes machine
  | .activeVtl => activeVtl world provider machine
  | .release =>
    if provider.phase ≠ .stopped then
      ⟨provider, machine, .error ⟨.notStopped, "release requires a held event"⟩⟩
    else enter provider .running none token machine .released

def serve (token : Except String String) (request : Request) (machine : Machine) : Handled :=
  if request.protocol ≠ protocolVersion then
    ⟨provider, machine, .error ⟨.provider, "protocol must be 2"⟩⟩
  else if request.target ≠ provider.target then
    ⟨provider, machine, .error ⟨.wrongTarget, "target identity mismatch"⟩⟩
  else if request.epoch ≠ provider.epoch then
    ⟨provider, machine, .error ⟨.staleEpoch, "stop epoch mismatch"⟩⟩
  else perform world provider token machine request.operation

def Handled.response (handled : Handled) (id : Nat) : Response where
  protocol := protocolVersion
  id := id
  target := handled.provider.target
  epoch := handled.provider.epoch
  outcome :=
    match handled.outcome with
    | .ok value => .ok value
    | .error error => .error error

end ControlProvider

end WindbgMcp.SkControl
