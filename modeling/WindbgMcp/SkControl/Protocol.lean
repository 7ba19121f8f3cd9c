import Mathlib.Algebra.Order.Ring.Nat
import WindbgMcp.Library.Text

/-! The data of the VTL1 control protocol: the target a provider is bound to, stop
epochs, registers, held events, requests and replies, each with the check the
client makes of it. -/
namespace WindbgMcp.SkControl
open Library

def protocolVersion : Nat := 2
def maxRegisters : Nat := 32
def maxBannerLines : Nat := 64
def readyLine : String := "windbg-mcp-sk-control/2"

structure TargetIdentity where
  vmId : String
  partitionId : Nat
  vp : Nat
  vtl : Nat
  expectedCr3 : Nat
deriving DecidableEq, Repr

structure TargetSelector where
  vmId : String
  partitionId : Nat
  vp : Nat
  expectedCr3 : Option Nat
deriving DecidableEq, Repr

def guidHyphens : List Nat := [8, 13, 18, 23]

namespace TargetIdentity

def validate (target : TargetIdentity) : Except String Unit :=
  if target.vmId.utf8ByteSize ≠ 36 ∨
      !target.vmId.toList.zipIdx.all fun (c, index) =>
        (guidHyphens.contains index && c == '-') || (!guidHyphens.contains index && Text.isAsciiHexdigit c)
  then .error "vm_id must be a canonical 36-character GUID"
  else if target.partitionId = 0 then .error "partition_id must be nonzero"
  else if target.vtl ≠ 1 then
    .error ("this protocol revision controls VTL1, not VTL" ++ toString target.vtl)
  else if target.expectedCr3 = 0 ∨ target.expectedCr3 % 0x1000 ≠ 0 then
    .error "expected_cr3 must be a nonzero page-aligned address"
  else .ok ()

end TargetIdentity

namespace TargetSelector

def validate (selector : TargetSelector) : Except String Unit :=
  TargetIdentity.validate
    { vmId := selector.vmId
      partitionId := selector.partitionId
      vp := selector.vp
      vtl := 1
      expectedCr3 := selector.expectedCr3.getD 0x1000 }

def require (selector : TargetSelector) (actual : TargetIdentity) : Except String Unit := do
  selector.validate
  actual.validate
  if Text.toAsciiLowercase actual.vmId ≠ Text.toAsciiLowercase selector.vmId ∨
      actual.partitionId ≠ selector.partitionId ∨ actual.vp ≠ selector.vp ∨ actual.vtl ≠ 1 then
    .error ("provider hello does not name the target requested by the operator or discovered " ++
      "by the worker")
  match selector.expectedCr3 with
  | some expectedCr3 =>
    if actual.expectedCr3 ≠ expectedCr3 then
      .error ("provider hello CR3 " ++ Text.hex actual.expectedCr3 ++
        " does not match asserted CR3 " ++ Text.hex expectedCr3)
    else .ok ()
  | none => .ok ()

end TargetSelector

structure StopEpoch where
  value : String
deriving DecidableEq, Repr

namespace StopEpoch

def new (value : String) : Except String StopEpoch :=
  if value.utf8ByteSize < 16 ∨ 128 < value.utf8ByteSize ∨
      !value.toList.all fun c => '!' ≤ c && c ≤ '~'
  then .error "a stop epoch must contain 16..=128 visible ASCII bytes"
  else .ok ⟨value⟩

end StopEpoch

inductive RegisterName where
  | rax | rcx | rdx | rbx | rip | rsp | rbp | rsi | rdi
  | r8 | r9 | r10 | r11 | r12 | r13 | r14 | r15
  | rflags | cr3 | cs | ds | es | fs | gs | ss
  | dr0 | dr1 | dr2 | dr3 | dr6 | dr7 | vsmVpStatus
deriving DecidableEq, Repr

namespace RegisterName

def writable : RegisterName → Bool
  | rip | rsp | rflags | dr0 | dr1 | dr2 | dr3 | dr6 | dr7 => true
  | _ => false

def name : RegisterName → String
  | rax => "Rax" | rcx => "Rcx" | rdx => "Rdx" | rbx => "Rbx"
  | rip => "Rip" | rsp => "Rsp" | rbp => "Rbp" | rsi => "Rsi" | rdi => "Rdi"
  | r8 => "R8" | r9 => "R9" | r10 => "R10" | r11 => "R11"
  | r12 => "R12" | r13 => "R13" | r14 => "R14" | r15 => "R15"
  | rflags => "Rflags" | cr3 => "Cr3"
  | cs => "Cs" | ds => "Ds" | es => "Es" | fs => "Fs" | gs => "Gs" | ss => "Ss"
  | dr0 => "Dr0" | dr1 => "Dr1" | dr2 => "Dr2" | dr3 => "Dr3" | dr6 => "Dr6" | dr7 => "Dr7"
  | vsmVpStatus => "VsmVpStatus"

end RegisterName

structure RegisterValue where
  name : RegisterName
  status : Nat
  low : Nat
  high : Nat
deriving DecidableEq, Repr

/-- A guarded write: the value the register must hold and the one that replaces it. -/
structure RegisterWrite where
  name : RegisterName
  expected : Nat
  value : Nat
deriving DecidableEq, Repr

inductive Capability where
  | beginArm | finishArm | publishStop | heldEvent | readRegisters | writeRegisters | release
  | breakpointEvents | activeVtl
deriving DecidableEq, Repr

def Capability.name : Capability → String
  | beginArm => "BeginArm"
  | finishArm => "FinishArm"
  | publishStop => "PublishStop"
  | heldEvent => "HeldEvent"
  | readRegisters => "ReadRegisters"
  | writeRegisters => "WriteRegisters"
  | release => "Release"
  | breakpointEvents => "BreakpointEvents"
  | activeVtl => "ActiveVtl"

def unique {α : Type} [DecidableEq α] (values : List α) (what : String) : Except String Unit :=
  if values.Nodup then .ok () else .error ("duplicate " ++ what)

structure Capabilities where
  capabilities : List Capability
  readableRegisters : List RegisterName
  writableRegisters : List RegisterName
  maxRegistersPerRequest : Nat
  requiresStopEpoch : Bool
  writesWhileRunning : Bool
deriving DecidableEq, Repr

namespace Capabilities

def required : List Capability :=
  [.beginArm, .finishArm, .publishStop, .heldEvent, .readRegisters, .writeRegisters, .release]

def validate (value : Capabilities) : Except String Unit := do
  match required.find? fun capability => !value.capabilities.contains capability with
  | some missing =>
    .error ("provider does not advertise required capability " ++ missing.name)
  | none => .ok ()
  if value.maxRegistersPerRequest = 0 ∨ maxRegisters < value.maxRegistersPerRequest then
    .error ("max_registers_per_request must be in 1..=32, got " ++
      toString value.maxRegistersPerRequest)
  if !value.requiresStopEpoch ∨ value.writesWhileRunning then
    .error "provider must require epochs and refuse writes while running"
  if value.writableRegisters.any fun register => !register.writable then
    .error "provider advertised a read-only register as writable"
  unique value.readableRegisters "readable register"
  unique value.writableRegisters "writable register"
  if value.writableRegisters.any fun register => !value.readableRegisters.contains register then
    .error "every writable register must also be readable"

end Capabilities

inductive StopReason where
  | debugException
  | breakpointException
  | hardwareBreakpoint (slot : Nat)
  | breakRequest (slot : Nat)
  | singleStep
  | stepOver (slot : Nat) (newCr3 : Nat)
  | softwareBreakpoint (address : Nat)
deriving DecidableEq, Repr

def StopReason.slot : StopReason → Option Nat
  | hardwareBreakpoint slot | breakRequest slot | stepOver slot _ => some slot
  | _ => none

structure HeldEvent where
  messageType : Nat
  vector : Nat
  vp : Nat
  vtl : Nat
  cpl : Nat
  dispatcherContext : Nat
  advanceInstructionPointer : Bool
  reason : StopReason
deriving DecidableEq, Repr

namespace HeldEvent

def checkVector (event : HeldEvent) : Except String Unit :=
  match event.vector, event.reason with
  | 1, .debugException => .ok ()
  | 3, .breakpointException => .ok ()
  | 1, _ | 3, _ =>
    .error ("held vector-" ++ toString event.vector ++
      " event has a reason that does not match its raw exception class")
  | vector, _ =>
    .error ("held event is vector " ++ toString vector ++ ", expected vector 1 or 3")

def validate (event : HeldEvent) (target : TargetIdentity) : Except String Unit := do
  if event.messageType ≠ 0x01000002 then
    .error ("held event has unexpected message type " ++ Text.hex event.messageType)
  event.checkVector
  if event.vp ≠ target.vp ∨ event.vtl ≠ target.vtl ∨ event.cpl ≠ 0 then
    .error "held event is not the bound VTL1 CPL0 VP"
  if event.dispatcherContext = 0 then
    .error "held event has no dispatcher context"
  if event.advanceInstructionPointer then
    .error "held event requested native instruction-pointer advance"
  if event.reason.slot.any fun slot => 3 < slot then
    .error "hardware breakpoint slot must be in 0..=3"

end HeldEvent

structure Hello where
  protocol : Nat
  target : TargetIdentity
  epoch : StopEpoch
deriving DecidableEq, Repr

inductive Operation where
  | capabilities
  | beginArm
  | finishArm
  | publishStop (event : HeldEvent)
  | heldEvent
  | readRegisters (registers : List RegisterName)
  | writeRegisters (writes : List RegisterWrite)
  | activeVtl
  | release
deriving DecidableEq, Repr

structure Request where
  protocol : Nat
  id : Nat
  target : TargetIdentity
  epoch : StopEpoch
  operation : Operation
deriving DecidableEq, Repr

inductive ReplyValue where
  | capabilities (value : Capabilities)
  | armBegun
  | armFinished
  | stopPublished (event : HeldEvent)
  | heldEvent (event : HeldEvent)
  | registers (values : List RegisterValue)
  | registersWritten (values : List RegisterValue)
  | activeVtl (vtl : Nat)
  | released
deriving DecidableEq, Repr

def ReplyValue.changesEpoch : ReplyValue → Bool
  | armBegun | armFinished | stopPublished _ | released => true
  | _ => false

/-- The reply kind each operation is answered with: `ExpectedReply::for_operation` and
`ExpectedReply::matches` in one. -/
def Operation.expects : Operation → ReplyValue → Bool
  | capabilities, .capabilities _ => true
  | beginArm, .armBegun => true
  | finishArm, .armFinished => true
  | publishStop _, .stopPublished _ => true
  | heldEvent, .heldEvent _ => true
  | readRegisters _, .registers _ => true
  | writeRegisters _, .registersWritten _ => true
  | activeVtl, .activeVtl _ => true
  | release, .released => true
  | _, _ => false

inductive ErrorCode where
  | staleEpoch | wrongTarget | running | notStopped | unsupportedRegister | guardMismatch | provider
deriving DecidableEq, Repr

structure ProviderError where
  code : ErrorCode
  detail : String
deriving DecidableEq, Repr

inductive Outcome where
  | ok (value : ReplyValue)
  | error (error : ProviderError)
deriving DecidableEq, Repr

structure Response where
  protocol : Nat
  id : Nat
  target : TargetIdentity
  epoch : StopEpoch
  outcome : Outcome
deriving DecidableEq, Repr

def validateValues (wanted : List RegisterName) (values : List RegisterValue) :
    Except String Unit := do
  if wanted.length ≠ values.length then
    .error ("provider returned " ++ toString values.length ++ " register values for " ++
      toString wanted.length ++ " names")
  let names := values.map RegisterValue.name
  unique names "returned register"
  if names ≠ wanted then
    .error "provider returned registers in a different order or with different names"

def validateGuardedWrites (writes : List RegisterWrite) (values : List RegisterValue) :
    Except String Unit :=
  match (writes.zip values).find? fun (write, value) =>
      value.status ≠ 0 ∨ value.low ≠ write.value with
  | some (write, _) =>
    .error ("provider did not verify the guarded write to " ++ write.name.name)
  | none => .ok ()

end WindbgMcp.SkControl
