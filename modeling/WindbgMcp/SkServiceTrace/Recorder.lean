import WindbgMcp.SkServiceTrace.Record

/-! The bounded recorder of a secure-service trace and the lock it is shared under.  An
operation that seals takes the clock sample of that moment as an argument. -/
namespace WindbgMcp.SkServiceTrace
open SkControl (TargetIdentity StopEpoch)
open Structured (HostQpcSample)

structure Recorder where
  traceId : String
  label : Option String
  manifest : ServiceManifest
  target : TargetIdentity
  imageBase : Nat
  limits : TraceLimits
  records : List ServiceCallRecord
  pending : Option PendingCall
  retainedCaptureBytes : Nat
  droppedRecords : Nat
  droppedCaptureBytes : Nat
  unreadableFields : Nat
  isSealed : Bool
  terminalHostQpc : Option HostQpcSample
  seenEpochs : List StopEpoch
deriving DecidableEq, Repr

/-- A read-only copy of what the recorder has retained. -/
structure ServiceTrace where
  hostQpc : Option HostQpcSample
  traceId : String
  label : Option String
  manifestId : String
  target : TargetIdentity
  image : ImageIdentity
  imageBase : Nat
  selectedService : Nat
  records : List ServiceCallRecord
  limits : TraceLimits
  isFull : Bool
  droppedRecords : Nat
  droppedCaptureBytes : Nat
  unreadableFields : Nat
  armed : Bool
  pendingPhase : Option ServicePhase
deriving DecidableEq, Repr

/-- What is fed to the recorder, one constructor for each of its three methods. -/
inductive Observation where
  | entry (cr3 : Nat) (entry : EntryObservation)
  | dispatch (cr3 service : Nat) (dispatch : DispatchPhase)
  | returned (cr3 : Nat) (returned : ReturnPhase)
deriving DecidableEq, Repr

namespace Recorder

/-- An empty recorder; the manifest and the target have been validated. -/
def new (traceId : String) (label : Option String) (manifest : ServiceManifest)
    (target : TargetIdentity) (imageBase : Nat) (limits : TraceLimits) :
    Except String Recorder :=
  match target.validate with
  | .error text => .error text
  | .ok _ =>
    if traceId.isEmpty ∨ imageBase = 0 then
      .error "trace identity or selected VTL1 service is invalid"
    else if label.any fun label => label.isEmpty ∨ 128 < label.utf8ByteSize then
      .error "trace label must contain 1 through 128 UTF-8 bytes"
    else
      .ok { traceId, label, manifest, target, imageBase, limits
            records := []
            pending := none
            retainedCaptureBytes := 0
            droppedRecords := 0
            droppedCaptureBytes := 0
            unreadableFields := 0
            isSealed := false
            terminalHostQpc := none
            seenEpochs := [] }

def spent (recorder : Recorder) : Bool :=
  recorder.records.length = recorder.limits.records ∨
    (0 < recorder.limits.totalCaptureBytes ∧
      recorder.retainedCaptureBytes = recorder.limits.totalCaptureBytes)

def full (recorder : Recorder) : Bool := recorder.spent ∨ 0 < recorder.droppedRecords

def pendingPhase (recorder : Recorder) : Option ServicePhase :=
  recorder.pending.map fun pending => if pending.dispatch.isSome then .dispatch else .entry

def completedPrefix (recorder : Recorder) (now : Option HostQpcSample) : ServiceTrace where
  hostQpc := if recorder.isSealed then recorder.terminalHostQpc else now
  traceId := recorder.traceId
  label := recorder.label
  manifestId := recorder.manifest.manifestId
  target := recorder.target
  image := recorder.manifest.image
  imageBase := recorder.imageBase
  selectedService := recorder.manifest.selected
  records := recorder.records
  limits := recorder.limits
  isFull := recorder.full
  droppedRecords := recorder.droppedRecords
  droppedCaptureBytes := recorder.droppedCaptureBytes
  unreadableFields := recorder.unreadableFields
  armed := !recorder.isSealed
  pendingPhase := recorder.pendingPhase

def sealNow (recorder : Recorder) (now : Option HostQpcSample) : Recorder :=
  if recorder.isSealed then recorder
  else { recorder with terminalHostQpc := now, isSealed := true }

/-- The record of a call as far as it was observed. -/
def record (recorder : Recorder) (pending : PendingCall) (returned : Option ReturnPhase)
    (incompleteReason : Option IncompleteReason) : ServiceCallRecord where
  schema := recordSchema
  traceId := recorder.traceId
  label := recorder.label
  sequence := recorder.records.length + recorder.droppedRecords + 1
  manifestId := recorder.manifest.manifestId
  target := recorder.target
  image := recorder.manifest.image
  imageBase := recorder.imageBase
  cr3 := pending.cr3
  lastPhase :=
    if returned.isSome then .returned
    else if pending.dispatch.isSome then .dispatch
    else .entry
  complete := pending.entry.isSome && pending.dispatch.isSome && returned.isSome
  incompleteReason := incompleteReason
  entry := pending.entry.map fun entry =>
    { site := entry.site
      service := recorder.manifest.selected
      caller := entry.caller
      rawArguments := entry.rawArguments
      provenance := entry.provenance }
  dispatch := pending.dispatch
  returned := returned

def pushRecord (recorder : Recorder) (now : Option HostQpcSample) (record : ServiceCallRecord) :
    Recorder × Except String Unit :=
  match record.validate recorder.manifest recorder.limits with
  | .error text => (recorder, .error text)
  | .ok _ =>
    let bytes := record.capturedBytes
    let total := recorder.retainedCaptureBytes + bytes
    if recorder.limits.records ≤ recorder.records.length ∨ 2 ^ 64 ≤ total ∨
        recorder.limits.totalCaptureBytes < total then
      (sealNow { recorder with
        droppedRecords := recorder.droppedRecords + 1
        droppedCaptureBytes := recorder.droppedCaptureBytes + bytes } now, .ok ())
    else
      let pushed := { recorder with
        unreadableFields := recorder.unreadableFields + record.unreadableFields
        retainedCaptureBytes := total
        records := recorder.records ++ [record] }
      (if pushed.spent then pushed.sealNow now else pushed, .ok ())

def sealPending (recorder : Recorder) (now : Option HostQpcSample) (pending : PendingCall)
    (returned : Option ReturnPhase) (reason : IncompleteReason) : Recorder × Except String Unit :=
  recorder.pushRecord now (recorder.record pending returned (some reason))

def validateObservation (recorder : Recorder) (cr3 : Nat) (site : PhaseSite) (phase : String) :
    Recorder × Except String Unit :=
  if cr3 = 0 ∨ cr3 % 0x1000 ≠ 0 then
    (recorder, .error "service observation used an invalid transition CR3")
  else
    match recorder.manifest.sites.find? fun site => site.phase = phase with
    | none => (recorder, .error ("manifest has no " ++ phase ++ " site"))
    | some expected =>
      if site.coordinate.rva ≠ expected.rva ∨
          site.coordinate.address ≠ wrappingAdd recorder.imageBase expected.rva then
        (recorder, .error (phase ++ " observation does not match its guarded site"))
      else if site.epoch ∈ recorder.seenEpochs then
        (recorder, .error "service observation reused a stale stop epoch")
      else ({ recorder with seenEpochs := site.epoch :: recorder.seenEpochs }, .ok ())

def andThen (outcome : Recorder × Except String Unit)
    (next : Recorder → Recorder × Except String Unit) : Recorder × Except String Unit :=
  match outcome.2 with
  | .error text => (outcome.1, .error text)
  | .ok _ => next outcome.1

def taken (recorder : Recorder) : Recorder := { recorder with pending := none }

def await (pending : PendingCall) (recorder : Recorder) : Recorder × Except String Unit :=
  (if recorder.isSealed then recorder else { recorder with pending := some pending }, .ok ())

def observeEntry (recorder : Recorder) (now : Option HostQpcSample) (cr3 : Nat)
    (entry : EntryObservation) : Recorder × Except String Unit :=
  andThen (recorder.validateObservation cr3 entry.site "entry") fun recorder =>
    if recorder.isSealed then (recorder, .ok ())
    else
      let next := await { entry := some entry, dispatch := none, cr3 := cr3 }
      match recorder.pending.filter fun pending => pending.dispatch.isSome with
      | some pending => andThen (recorder.taken.sealPending now pending none .nestedEntry) next
      | none => next recorder.taken

def checkServiceField (recorder : Recorder) (service : Nat) (dispatch : DispatchPhase) :
    Except String Unit :=
  if service = recorder.manifest.selected then
    match dispatch.fields.find? fun field => field.name = "service_number" with
    | none => .error "dispatch observation omitted service_number"
    | some field =>
      if field.value ≠ service then
        .error "dispatch service argument and checked field disagree"
      else .ok ()
  else .ok ()

def observeDispatch (recorder : Recorder) (now : Option HostQpcSample) (cr3 service : Nat)
    (dispatch : DispatchPhase) : Recorder × Except String Unit :=
  match recorder.checkServiceField service dispatch with
  | .error text => (recorder, .error text)
  | .ok _ =>
    andThen (recorder.validateObservation cr3 dispatch.site "dispatch") fun recorder =>
      if recorder.isSealed then
        ({ recorder with
            droppedRecords := recorder.droppedRecords +
              if service = recorder.manifest.selected then 1 else 0 }, .ok ())
      else if service ≠ recorder.manifest.selected then
        (recorder.taken, .ok ())
      else
        let alone : PendingCall := { entry := none, dispatch := some dispatch, cr3 := cr3 }
        match recorder.pending with
        | some pending =>
          if pending.dispatch.isNone then
            if pending.cr3 ≠ cr3 then ({ recorder with pending := some alone }, .ok ())
            else ({ recorder with pending := some { pending with dispatch := some dispatch } }, .ok ())
          else andThen (recorder.taken.sealPending now pending none .repeatedDispatch) (await alone)
        | none => ({ recorder with pending := some alone }, .ok ())

def observeReturn (recorder : Recorder) (now : Option HostQpcSample) (cr3 : Nat)
    (returned : ReturnPhase) : Recorder × Except String Unit :=
  andThen (recorder.validateObservation cr3 returned.site "return") fun recorder =>
    if recorder.isSealed then
      ({ recorder with droppedRecords := recorder.droppedRecords + 1 }, .ok ())
    else
      match recorder.pending.filter fun pending => pending.dispatch.isSome with
      | some pending =>
        if pending.cr3 ≠ cr3 then
          (recorder, .error "selected service return changed CR3 within one call")
        else
          let reason := if pending.entry.isSome then none else some .missingEntry
          recorder.taken.pushRecord now (recorder.taken.record pending (some returned) reason)
      | none => (recorder.taken, .ok ())

def finish (recorder : Recorder) (now : Option HostQpcSample) : Recorder × Except String Unit :=
  if recorder.isSealed then (recorder, .ok ())
  else
    match recorder.pending.filter fun pending => pending.dispatch.isSome with
    | some pending =>
      andThen (recorder.taken.sealPending now pending none .stopped) fun recorder =>
        (recorder.sealNow now, .ok ())
    | none => (recorder.taken.sealNow now, .ok ())

def observe (recorder : Recorder) (now : Option HostQpcSample) :
    Observation → Recorder × Except String Unit
  | .entry cr3 entry => recorder.observeEntry now cr3 entry
  | .dispatch cr3 service dispatch => recorder.observeDispatch now cr3 service dispatch
  | .returned cr3 returned => recorder.observeReturn now cr3 returned

def observeAll (recorder : Recorder) (now : Option HostQpcSample) :
    List Observation → Recorder × Except String Unit
  | [] => (recorder, .ok ())
  | observation :: rest =>
    andThen (recorder.observe now observation) fun recorder => recorder.observeAll now rest

end Recorder

structure SharedTrace where
  recorder : Recorder
  stopRequested : Bool
deriving DecidableEq, Repr

inductive StopRequest where
  | first | alreadyRequested | finished
deriving DecidableEq, Repr

inductive ObservationError where
  | stopRequested
  | alreadySealed
  | recorder (text : String)
deriving DecidableEq, Repr

namespace SharedTrace

def new (recorder : Recorder) : SharedTrace := ⟨recorder, false⟩

def requireTraceId (shared : SharedTrace) (traceId : String) : Except String Unit :=
  if shared.recorder.traceId = traceId then .ok ()
  else .error "trace_id is stale or belongs to a different trace"

def snapshot (shared : SharedTrace) (now : Option HostQpcSample) (traceId : String) :
    Except String ServiceTrace :=
  match shared.requireTraceId traceId with
  | .error text => .error text
  | .ok _ => .ok (shared.recorder.completedPrefix now)

def requestStop (shared : SharedTrace) (traceId : String) :
    SharedTrace × Except String StopRequest :=
  match shared.requireTraceId traceId with
  | .error text => (shared, .error text)
  | .ok _ =>
    if shared.recorder.isSealed then (shared, .ok .finished)
    else if shared.stopRequested then (shared, .ok .alreadyRequested)
    else ({ shared with stopRequested := true }, .ok .first)

def observe (shared : SharedTrace) (now : Option HostQpcSample)
    (observations : List Observation) : SharedTrace × Except ObservationError Unit :=
  if shared.stopRequested then (shared, .error .stopRequested)
  else if shared.recorder.isSealed then (shared, .error .alreadySealed)
  else
    let (recorder, result) := shared.recorder.observeAll now observations
    ({ shared with recorder := recorder }, result.mapError .recorder)

def capacityReached (shared : SharedTrace) : Bool := shared.recorder.full

def finish (shared : SharedTrace) (now : Option HostQpcSample) :
    SharedTrace × Except String ServiceTrace :=
  let (recorder, result) := shared.recorder.finish now
  ({ shared with recorder := recorder }, result.map fun _ => recorder.completedPrefix now)

end SharedTrace

end WindbgMcp.SkServiceTrace
