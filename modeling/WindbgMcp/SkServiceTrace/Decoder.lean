import WindbgMcp.Library.Fallible
import WindbgMcp.Library.LittleEndian
import WindbgMcp.SkLive.Guards
import WindbgMcp.SkServiceTrace.Recorder

/-! How a retained stop becomes an observation.  Memory is read through a callback with a
state of its own, so a reading is a fallible computation over that state. -/
namespace WindbgMcp.SkServiceTrace
open Library
open SkControl (TargetIdentity StopEpoch RegisterName RegisterValue HeldEvent)
open Structured (HostQpcSample)
open SkLive (InstructionGuard BreakpointGuard)

structure StopRecord where
  epoch : StopEpoch
  target : TargetIdentity
  event : HeldEvent
  registers : List RegisterValue
  instruction : InstructionGuard
deriving DecidableEq, Repr

structure Clock where
  hostQpc : Option HostQpcSample
  hostMonotonicUs : Nat
  hostElapsedUs : Nat
deriving DecidableEq, Repr

abbrev Reading (ρ : Type) := Fallible ρ

abbrev ReadMemory (ρ : Type) := Nat → Nat → Reading ρ (List UInt8)

section
variable {ρ : Type}

/-- Reads page by page; `fuel` is at least the number of bytes that remain. -/
def readPages (read : ReadMemory ρ) : Nat → Nat → Nat → Reading ρ (List UInt8)
  | 0, _, _ => pure []
  | fuel + 1, cursor, remaining =>
    if remaining = 0 then pure []
    else do
      let count := min remaining (pageBytes - cursor % pageBytes)
      let chunk ← read cursor count
      if chunk.length ≠ count then
        throw ("short read at " ++ Text.hex cursor ++ ": requested " ++ toString count ++
          ", received " ++ toString chunk.length)
      let rest ← readPages read fuel (wrappingAdd cursor count) (remaining - count)
      return chunk ++ rest

def readRequired (read : ReadMemory ρ) (name : String) (address size : Nat) :
    Reading ρ (List UInt8) :=
  tryCatch (readPages read size address size) fun error => throw (name ++ ": " ++ error)

def upperDigit (value : Nat) : Char := (Nat.digitChar value).toUpper

def hexData (bytes : List UInt8) : String :=
  String.ofList (bytes.flatMap fun byte =>
    [upperDigit (byte.toNat / 16), upperDigit (byte.toNat % 16)])

def captureBuffer (read : ReadMemory ρ) (name : String) (address availableSize limit : Nat) :
    Reading ρ BufferCapture := do
  if maxBufferBytes < limit then throw "per-buffer limit exceeds 4096"
  if name.isEmpty then throw "buffer name must not be empty"
  let requestedSize := min availableSize limit
  if 2 ^ 64 ≤ address + requestedSize then
    throw "buffer capture crosses the address-space limit"
  let bytes ← tryCatch
    (do
      let bytes ← readPages read requestedSize address requestedSize
      return BufferState.measured (hexData bytes))
    fun message => pure (.unavailable { field := name, message := message })
  return { name, address, availableSize, requestedSize, bytes }

def littleU64 (bytes : List UInt8) : Except String Nat :=
  if bytes.length ∈ [1, 2, 4, 8] then .ok (LittleEndian.decode bytes)
  else .error "typed layout value must contain 1, 2, 4 or 8 bytes"

end

structure PendingEntryCapture where
  request : Nat
  cr3 : Nat
  entry : EntryObservation
  buffers : List BufferCapture
deriving DecidableEq, Repr

inductive DecodedEvent where
  | dispatch (cr3 service : Nat) (dispatch : DispatchPhase)
      (matchedEntry : Option (Nat × EntryObservation))
  | returned (cr3 : Nat) (returned : ReturnPhase)
deriving DecidableEq, Repr

structure DecodedObservation where
  phase : ServicePhase
  selected : Bool
  event : Option DecodedEvent
deriving DecidableEq, Repr

def DecodedObservation.observations (decoded : DecodedObservation) : List Observation :=
  match decoded.event with
  | some (.dispatch cr3 service dispatch matchedEntry) =>
    (matchedEntry.map fun (entryCr3, entry) => Observation.entry entryCr3 entry).toList ++
      [.dispatch cr3 service dispatch]
  | some (.returned cr3 returned) => [.returned cr3 returned]
  | none => []

def DecodedObservation.apply (decoded : DecodedObservation) (recorder : Recorder)
    (now : Option HostQpcSample) : Recorder × Except String Unit :=
  recorder.observeAll now decoded.observations

structure ObservationDecoder where
  manifest : ServiceManifest
  target : TargetIdentity
  imageBase : Nat
  /-- Indexed by armed slot: the manifest's slot it carries. -/
  slotMap : List (Option Nat)
  /-- What `ServiceManifest::breakpoints` answers for this image base. -/
  breakpoints : Except String (List BreakpointGuard)
  entryCaptures : List PendingEntryCapture
  /-- The requests of the selected dispatches that have not returned, newest first. -/
  selectedRequests : List Nat
  seenEpochs : List StopEpoch

namespace ObservationDecoder

def Fresh (decoder : ObservationDecoder) : Prop :=
  decoder.entryCaptures = [] ∧ decoder.selectedRequests = [] ∧ decoder.seenEpochs = []

def register (stop : StopRecord) (name : RegisterName) : Except String Nat :=
  match stop.registers.find? fun value => value.name = name with
  | some value => .ok value.low
  | none => .error ("register snapshot omitted " ++ name.name)

def registerNamed (stop : StopRecord) (name : String) : Except String Nat :=
  match name with
  | "rax" | "eax" => register stop .rax
  | "rcx" => register stop .rcx
  | "rdx" => register stop .rdx
  | "r8" => register stop .r8
  | "r9" => register stop .r9
  | "r14" => register stop .r14
  | other => .error ("manifest names unsupported register " ++ other)

def phaseSite (decoder : ObservationDecoder) (stop : StopRecord) (clock : Clock) (site : Site) :
    PhaseSite where
  epoch := stop.epoch
  hostQpc := clock.hostQpc
  hostMonotonicUs := clock.hostMonotonicUs
  hostElapsedUs := clock.hostElapsedUs
  coordinate :=
    { address := wrappingAdd decoder.imageBase site.rva
      rva := site.rva
      symbol := site.symbol }

def phaseMeasured (front : String) (site : PhaseSite) : List String :=
  [front ++ ".site.epoch", front ++ ".site.host_monotonic_us",
    front ++ ".site.host_elapsed_us"] ++
    if site.hostQpc.isSome then [front ++ ".site.host_qpc"] else []

variable {ρ : Type}

/-- The registers a capture is taken through: the entry's argument, or the dispatch's. -/
inductive CapturePoint where
  | entry | dispatch
deriving DecidableEq, Repr

def captureRegion (read : ReadMemory ρ) (decoder : ObservationDecoder) (request : Nat)
    (before : Bool) (bufferLimit : Nat) (point : CapturePoint) (region : Region) :
    Reading ρ BufferCapture := do
  let (configured, expected) :=
    match point with
    | .entry => (region.entryBaseRegister, "rcx")
    | .dispatch => (region.dispatchBaseRegister, "r14")
  if configured ≠ expected then
    throw ("manifest capture " ++ region.name ++ " uses unsupported base register " ++ configured)
  if 2 ^ 64 ≤ request + region.offset then
    throw ("capture " ++ region.name ++ " address wraps")
  captureBuffer read (region.name ++ "." ++ if before then "before" else "after")
    (request + region.offset) region.length
    (min decoder.manifest.capture.perBufferLimitMax bufferLimit)

def captureRegions (read : ReadMemory ρ) (decoder : ObservationDecoder) (request : Nat)
    (before : Bool) (bufferLimit : Nat) (point : CapturePoint) : Reading ρ (List BufferCapture) :=
  (decoder.manifest.regions before).mapM
    (captureRegion read decoder request before bufferLimit point)

def readCaller (read : ReadMemory ρ) (decoder : ObservationDecoder) (rsp : Nat) :
    Reading ρ CodeCoordinate := do
  let bytes ← readRequired read "entry caller" rsp 8
  let address ← littleU64 bytes
  let rva := address - decoder.imageBase
  if address < decoder.imageBase ∨ 2 ^ 32 ≤ rva ∨
      decoder.manifest.image.sizeOfImage ≤ rva then
    throw "entry return address is outside the proved Secure Kernel image"
  return { address := address, rva := rva, symbol := "securekernel+0x" ++ Text.hexDigits rva }

def entryProvenance (site : PhaseSite) (caller : Except String CodeCoordinate) : Provenance :=
  let measured := phaseMeasured "entry" site ++ ["entry.raw_arguments"]
  match caller with
  | .ok _ =>
    { measured := measured ++ ["entry.caller.address"]
      exactBuildLayoutDerived := ["entry.site.coordinate", "entry.caller.coordinate"]
      inferred := []
      unavailable := [] }
  | .error message =>
    { measured := measured
      exactBuildLayoutDerived := ["entry.site.coordinate"]
      inferred := []
      unavailable := [{ field := "entry.caller", message := message }] }

/-- The candidate an entry stop leaves, with the request's buffers as they are then. -/
def decodeEntry (read : ReadMemory ρ) (decoder : ObservationDecoder) (stop : StopRecord)
    (bufferLimit cr3 : Nat) (site : PhaseSite) : Reading ρ PendingEntryCapture := do
  let rsp ← register stop .rsp
  let rcx ← register stop .rcx
  let buffers ← captureRegions read decoder rcx true bufferLimit .entry
  let caller ← tryCatch (do return .ok (← readCaller read decoder rsp))
    fun message => pure (Except.error message)
  let rdx ← register stop .rdx
  let r8 ← register stop .r8
  let r9 ← register stop .r9
  return { request := rcx
           cr3 := cr3
           entry :=
             { site := site
               caller := caller.toOption
               rawArguments := { rcx, rdx, r8, r9 }
               provenance := entryProvenance site caller }
           buffers := buffers }

def queueEntry (candidates : List PendingEntryCapture) (candidate : PendingEntryCapture) :
    List PendingEntryCapture :=
  let kept := candidates.eraseP fun other => other.request = candidate.request
  let room := if kept.length = maxEntryCandidates then kept.drop 1 else kept
  room ++ [candidate]

def takeEntry (candidates : List PendingEntryCapture) (request : Nat) :
    Option PendingEntryCapture × List PendingEntryCapture :=
  let newest := candidates.reverse
  (newest.find? fun candidate => candidate.request = request,
    (newest.eraseP fun candidate => candidate.request = request).reverse)

def layoutValue (layout : List UInt8) (field : Field) : Except String LayoutValue := do
  let value ← littleU64 ((layout.drop field.offset).take field.width)
  return { name := field.name, offset := field.offset, width := field.width % 256, value := value }

def readService (read : ReadMemory ρ) (decoder : ObservationDecoder) (request : Nat) :
    Reading ρ Nat := do
  match decoder.manifest.requestLayout.fields.find? fun field => field.name = "service_number" with
  | none => throw "manifest has no service_number field"
  | some field =>
    if 2 ^ 64 ≤ request + field.offset then throw "service-number address wraps"
    let bytes ← readRequired read "service_number" (request + field.offset) field.width
    let service ← littleU64 bytes
    if 2 ^ 16 ≤ service then throw "service_number does not fit 16 bits"
    return service

def dispatchPhase (decoder : ObservationDecoder) (site : PhaseSite) (request : Nat)
    (fields : List LayoutValue) (buffersBefore : List BufferCapture) : DispatchPhase where
  site := site
  handler :=
    { address := wrappingAdd decoder.imageBase decoder.manifest.service.handlerRva
      rva := decoder.manifest.service.handlerRva
      symbol := decoder.manifest.service.handlerSymbol }
  request := request
  fields := fields
  buffersBefore := buffersBefore
  provenance :=
    { measured := phaseMeasured "dispatch" site ++ ["dispatch.request", "dispatch.fields"]
      exactBuildLayoutDerived := ["dispatch.site.coordinate", "dispatch.handler"]
      inferred := []
      unavailable := [] }

/-- A dispatch of the selected service takes the buffers of its entry; without one, each
buffer says that the entry was not observed. -/
def decodeDispatch (read : ReadMemory ρ) (decoder : ObservationDecoder) (stop : StopRecord)
    (bufferLimit cr3 : Nat) (site : PhaseSite) :
    Reading ρ (DecodedObservation × ObservationDecoder) := do
  let request ← registerNamed stop decoder.manifest.service.baseRegister
  if request = 0 ∨ request % decoder.manifest.requestLayout.alignment ≠ 0 then
    throw "dispatch request pointer is null or misaligned"
  let service ← readService read decoder request
  let (matched, rest) := takeEntry decoder.entryCaptures request
  if service = decoder.manifest.service.number then
    let layout ← readRequired read "service request layout" request
      decoder.manifest.requestLayout.size
    let fields ← decoder.manifest.requestLayout.fields.mapM fun field =>
      (layoutValue layout field : Reading ρ LayoutValue)
    let buffers ←
      match matched with
      | some candidate => pure candidate.buffers
      | none =>
        captureRegions (fun _ _ => throw "entry phase was not observed") decoder request true
          bufferLimit .entry
    return ({ phase := .dispatch
              selected := true
              event := some (.dispatch cr3 service
                (decoder.dispatchPhase site request fields buffers)
                (matched.map fun candidate => (candidate.cr3, candidate.entry))) },
      { decoder with
        entryCaptures := rest
        selectedRequests := request :: decoder.selectedRequests })
  else
    return ({ phase := .dispatch
              selected := false
              event := some (.dispatch cr3 service
                (decoder.dispatchPhase site request [] []) none) },
      { decoder with entryCaptures := rest })

def decodeReturn (read : ReadMemory ρ) (decoder : ObservationDecoder) (stop : StopRecord)
    (bufferLimit : Nat) (site : PhaseSite) (request : Nat) : Reading ρ ReturnPhase := do
  let buffersAfter ← captureRegions read decoder request false bufferLimit .dispatch
  let rax ← register stop .rax
  return { site := site
           status := rax % 2 ^ 32
           buffersAfter := buffersAfter
           provenance :=
             { measured := phaseMeasured "returned" site ++ ["returned.status"]
               exactBuildLayoutDerived := ["returned.site.coordinate"]
               inferred := []
               unavailable := [] } }

/-- The site a stop was taken at, once its target, epoch, slot and instruction are known to
be the trace's own. -/
def identify (decoder : ObservationDecoder) (stop : StopRecord) : Except String Site := do
  if stop.target ≠ decoder.target then
    throw "service stop does not belong to the trace target"
  if stop.epoch ∈ decoder.seenEpochs then
    throw "service observation reused a stale stop epoch"
  match stop.event.reason with
  | .hardwareBreakpoint armed =>
    let unowned := "service trace observed unowned hardware slot " ++ toString armed
    match (decoder.slotMap[armed]?).join with
    | none => throw unowned
    | some slot =>
      match decoder.manifest.sites.find? fun site => site.slot = slot with
      | none => throw unowned
      | some site =>
        let breakpoints ← decoder.breakpoints
        match breakpoints.find? fun breakpoint => breakpoint.slot = slot with
        | none => throw ("manifest has no breakpoint for site slot " ++ toString slot)
        | some expected =>
          if stop.instruction ≠ expected.instruction then
            throw (site.phase ++ " stop instruction no longer matches its manifest guard")
          return site
  | _ => throw "service trace observed a stop it does not own"

def decode (read : ReadMemory ρ) (decoder : ObservationDecoder) (stop : StopRecord)
    (clock : Clock) (bufferLimit : Nat) : Reading ρ (DecodedObservation × ObservationDecoder) := do
  let site ← decoder.identify stop
  let seen := { decoder with seenEpochs := stop.epoch :: decoder.seenEpochs }
  let cr3 ← register stop .cr3
  let phaseSite := seen.phaseSite stop clock site
  match site.phase with
  | "entry" =>
    let candidate ← decodeEntry read seen stop bufferLimit cr3 phaseSite
    return ({ phase := .entry, selected := false, event := none },
      { seen with entryCaptures := queueEntry seen.entryCaptures candidate })
  | "dispatch" => decodeDispatch read seen stop bufferLimit cr3 phaseSite
  | "return" =>
    match seen.selectedRequests with
    | [] => return ({ phase := .returned, selected := false, event := none }, seen)
    | request :: rest =>
      let returned ← decodeReturn read seen stop bufferLimit phaseSite request
      return ({ phase := .returned, selected := true, event := some (.returned cr3 returned) },
        { seen with selectedRequests := rest })
  | other => throw ("manifest exposed unknown service phase " ++ other)

end ObservationDecoder

end WindbgMcp.SkServiceTrace
