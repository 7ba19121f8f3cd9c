import WindbgMcp.SkControl.Protocol
import WindbgMcp.Structured

/-! The records of a secure-service trace: the manifest that names the three sites of one
service, the phases observed at them, the captured buffers, and the check every record
passes before it is retained. -/
namespace WindbgMcp.SkServiceTrace
open Library
open SkControl (TargetIdentity StopEpoch RegisterName)
open Structured (HostQpcSample)

def recordSchema : String := "windbg-mcp.sk-service-call.v1"
def maxBufferBytes : Nat := 4096
def pageBytes : Nat := 4096
def maxEntryCandidates : Nat := 1024

def wrappingAdd (a b : Nat) : Nat := (a + b) % 2 ^ 64

structure ImageIdentity where
  sizeOfImage : Nat
deriving DecidableEq, Repr

structure Service where
  number : Nat
  handlerSymbol : String
  handlerRva : Nat
  /-- The register the request pointer is in at the dispatch site. -/
  baseRegister : String
deriving DecidableEq, Repr

structure Site where
  phase : String
  symbol : String
  rva : Nat
  slot : Nat
deriving DecidableEq, Repr

structure Field where
  name : String
  offset : Nat
  width : Nat
deriving DecidableEq, Repr

structure Layout where
  size : Nat
  alignment : Nat
  fields : List Field
deriving DecidableEq, Repr

structure Region where
  name : String
  entryBaseRegister : String
  dispatchBaseRegister : String
  offset : Nat
  length : Nat
  before : Bool
  after : Bool
deriving DecidableEq, Repr

structure Capture where
  perBufferLimitMax : Nat
  regions : List Region
deriving DecidableEq, Repr

structure ServiceManifest where
  manifestId : String
  image : ImageIdentity
  service : Service
  sites : List Site
  requestLayout : Layout
  capture : Capture
deriving DecidableEq, Repr

def ServiceManifest.selected (manifest : ServiceManifest) : Nat :=
  manifest.service.number % 2 ^ 16

def ServiceManifest.regions (manifest : ServiceManifest) (before : Bool) : List Region :=
  manifest.capture.regions.filter fun region => if before then region.before else region.after

structure TraceLimits where
  records : Nat
  perBufferBytes : Nat
  totalCaptureBytes : Nat
deriving DecidableEq, Repr

structure CodeCoordinate where
  address : Nat
  rva : Nat
  symbol : String
deriving DecidableEq, Repr

structure PhaseSite where
  epoch : StopEpoch
  hostQpc : Option HostQpcSample
  hostMonotonicUs : Nat
  hostElapsedUs : Nat
  coordinate : CodeCoordinate
deriving DecidableEq, Repr

structure ReadFailure where
  field : String
  message : String
deriving DecidableEq, Repr

structure Provenance where
  measured : List String
  exactBuildLayoutDerived : List String
  inferred : List String
  unavailable : List ReadFailure
deriving DecidableEq, Repr

namespace Provenance

def unreadableFields (provenance : Provenance) : Nat := provenance.unavailable.length

def names (provenance : Provenance) : List String :=
  provenance.measured ++ provenance.exactBuildLayoutDerived ++
    provenance.unavailable.map ReadFailure.field

def validate (provenance : Provenance) : Except String Unit :=
  if !provenance.inferred.isEmpty then
    .error "the first M6 service does not permit inferred values"
  else if provenance.names.contains "" ∨ ¬ provenance.names.Nodup then
    .error "provenance field paths must be nonempty and disjoint"
  else .ok ()

end Provenance

/-- A whole bounded read, or one reason why nothing of it was retained. -/
inductive BufferState where
  | measured (data : String)
  | unavailable (failure : ReadFailure)
deriving DecidableEq, Repr

structure BufferCapture where
  name : String
  address : Nat
  availableSize : Nat
  requestedSize : Nat
  bytes : BufferState
deriving DecidableEq, Repr

namespace BufferCapture

def capturedBytes (buffer : BufferCapture) : Nat :=
  match buffer.bytes with
  | .measured data => data.utf8ByteSize / 2
  | .unavailable _ => 0

def unreadableFields (buffer : BufferCapture) : Nat :=
  match buffer.bytes with
  | .measured _ => 0
  | .unavailable _ => 1

def validate (buffer : BufferCapture) (limit : Nat) : Except String Unit :=
  if buffer.name.isEmpty ∨ buffer.availableSize < buffer.requestedSize ∨
      limit < buffer.requestedSize then
    .error "buffer name or size exceeds its declared bound"
  else
    match buffer.bytes with
    | .measured data =>
      if data.utf8ByteSize ≠ buffer.requestedSize * 2 ∨ !data.toList.all Text.isAsciiHexdigit then
        .error "measured buffer is not one complete hexadecimal read"
      else .ok ()
    | .unavailable failure =>
      if failure.field.isEmpty ∨ failure.message.isEmpty then
        .error "unavailable buffer needs a named failure"
      else .ok ()

end BufferCapture

structure RawArguments where
  rcx : Nat
  rdx : Nat
  r8 : Nat
  r9 : Nat
deriving DecidableEq, Repr

structure LayoutValue where
  name : String
  offset : Nat
  width : Nat
  value : Nat
deriving DecidableEq, Repr

structure EntryPhase where
  site : PhaseSite
  service : Nat
  caller : Option CodeCoordinate
  rawArguments : RawArguments
  provenance : Provenance
deriving DecidableEq, Repr

structure DispatchPhase where
  site : PhaseSite
  handler : CodeCoordinate
  request : Nat
  fields : List LayoutValue
  buffersBefore : List BufferCapture
  provenance : Provenance
deriving DecidableEq, Repr

structure ReturnPhase where
  site : PhaseSite
  status : Nat
  buffersAfter : List BufferCapture
  provenance : Provenance
deriving DecidableEq, Repr

inductive ServicePhase where
  | entry | dispatch | returned
deriving DecidableEq, Repr

inductive IncompleteReason where
  | nestedEntry | repeatedDispatch | missingEntry | missingDispatch | unexpectedReturn | stopped
deriving DecidableEq, Repr

structure ServiceCallRecord where
  schema : String
  traceId : String
  label : Option String
  sequence : Nat
  manifestId : String
  target : TargetIdentity
  image : ImageIdentity
  imageBase : Nat
  cr3 : Nat
  lastPhase : ServicePhase
  complete : Bool
  incompleteReason : Option IncompleteReason
  entry : Option EntryPhase
  dispatch : Option DispatchPhase
  returned : Option ReturnPhase
deriving DecidableEq, Repr

def firstError {α : Type} (check : α → Except String Unit) : List α → Except String Unit
  | [] => .ok ()
  | value :: rest =>
    match check value with
    | .error text => .error text
    | .ok _ => firstError check rest

namespace ServiceCallRecord

def before (record : ServiceCallRecord) : List BufferCapture :=
  (record.dispatch.map DispatchPhase.buffersBefore).getD []

def after (record : ServiceCallRecord) : List BufferCapture :=
  (record.returned.map ReturnPhase.buffersAfter).getD []

def provenances (record : ServiceCallRecord) : List Provenance :=
  (record.entry.map EntryPhase.provenance).toList ++
    (record.dispatch.map DispatchPhase.provenance).toList ++
    (record.returned.map ReturnPhase.provenance).toList

def capturedBytes (record : ServiceCallRecord) : Nat :=
  ((record.before ++ record.after).map BufferCapture.capturedBytes).sum

def unreadableFields (record : ServiceCallRecord) : Nat :=
  (record.provenances.map Provenance.unreadableFields).sum +
    ((record.before ++ record.after).map BufferCapture.unreadableFields).sum

def observedLast (record : ServiceCallRecord) : ServicePhase :=
  if record.returned.isSome then .returned
  else if record.dispatch.isSome then .dispatch
  else .entry

def times (record : ServiceCallRecord) : List Nat :=
  (record.entry.map fun phase => phase.site.hostMonotonicUs).toList ++
    (record.dispatch.map fun phase => phase.site.hostMonotonicUs).toList ++
    (record.returned.map fun phase => phase.site.hostMonotonicUs).toList

def validateField : LayoutValue × Field → Except String Unit
  | (value, field) =>
    if value.name ≠ field.name ∨ value.offset ≠ field.offset ∨ value.width ≠ field.width ∨
        (field.width < 8 ∧ 2 ^ (field.width * 8) ≤ value.value) then
      .error ("dispatch field " ++ field.name ++ " does not match its checked layout")
    else .ok ()

def validateDispatch (record : ServiceCallRecord) (manifest : ServiceManifest)
    (dispatch : DispatchPhase) : Except String Unit := do
  if dispatch.handler.rva ≠ manifest.service.handlerRva ∨
      dispatch.handler.address ≠ wrappingAdd record.imageBase manifest.service.handlerRva then
    .error "dispatch handler does not match the manifest"
  if dispatch.fields.length ≠ manifest.requestLayout.fields.length then
    .error "dispatch does not carry the complete checked request layout"
  firstError validateField (dispatch.fields.zip manifest.requestLayout.fields)
  match dispatch.fields.find? fun field => field.name = "service_number" with
  | none => .error "dispatch omitted service_number"
  | some service =>
    if service.value ≠ manifest.service.number then
      .error "dispatch service_number is not the selected service"

def validateCapture (request : Nat) (before : Bool) :
    BufferCapture × Region → Except String Unit
  | (capture, region) =>
    let suffix := if before then "before" else "after"
    if capture.name ≠ region.name ++ "." ++ suffix ∨
        capture.address ≠ wrappingAdd request region.offset ∨
        capture.availableSize ≠ region.length then
      .error ("capture " ++ capture.name ++ " does not match manifest region " ++ region.name)
    else .ok ()

def validateCaptureSet (record : ServiceCallRecord) (manifest : ServiceManifest)
    (before : Bool) : Except String Unit :=
  let captures := if before then record.before else record.after
  let regions := manifest.regions before
  match record.dispatch with
  | none =>
    if !captures.isEmpty then
      .error "a record without dispatch cannot carry request-buffer bytes"
    else .ok ()
  | some dispatch =>
    if (before ∨ record.returned.isSome) ∧ captures.length ≠ regions.length then
      .error "record does not carry the complete manifest capture set"
    else firstError (validateCapture dispatch.request before) (captures.zip regions)

def validate (record : ServiceCallRecord) (manifest : ServiceManifest) (limits : TraceLimits) :
    Except String Unit := do
  if record.schema ≠ recordSchema ∨ record.traceId.isEmpty ∨ record.manifestId.isEmpty ∨
      record.imageBase = 0 ∨ record.cr3 = 0 ∨ record.cr3 % 0x1000 ≠ 0 then
    .error "service record identity is incomplete"
  if record.complete ≠
        (record.entry.isSome && record.dispatch.isSome && record.returned.isSome) ∨
      record.complete = record.incompleteReason.isSome then
    .error "service record completion fields disagree"
  if record.entry.any fun phase => phase.service ≠ manifest.service.number then
    .error "record carries a service other than the selected service"
  if record.lastPhase ≠ record.observedLast then
    .error "record last_phase does not name its last observation"
  if ¬ record.times.Pairwise (· ≤ ·) then
    .error "service phases are not in monotonic observation order"
  match record.dispatch with
  | none => .ok ()
  | some dispatch => record.validateDispatch manifest dispatch
  firstError Provenance.validate record.provenances
  firstError (fun buffer => buffer.validate limits.perBufferBytes) (record.before ++ record.after)
  record.validateCaptureSet manifest true
  record.validateCaptureSet manifest false

end ServiceCallRecord

/-- Entry data kept until a dispatch proves which service it belongs to. -/
structure EntryObservation where
  site : PhaseSite
  caller : Option CodeCoordinate
  rawArguments : RawArguments
  provenance : Provenance
deriving DecidableEq, Repr

structure PendingCall where
  entry : Option EntryObservation
  dispatch : Option DispatchPhase
  cr3 : Nat
deriving DecidableEq, Repr

end WindbgMcp.SkServiceTrace
