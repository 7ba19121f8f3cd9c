import Mathlib.Algebra.Order.Ring.Nat
import Mathlib.Data.List.Sort
import WindbgMcp.Correlate.Identity
import WindbgMcp.Library.Text

/-! The three traces of one capture as the join reads them (`skjoin.rs`): each layer's events
normalized and in the order of their sequence numbers, and what about a trace stops it being the
complete run of what happened while it recorded. -/
namespace WindbgMcp.SkJoin
open WindbgMcp.Library WindbgMcp.Correlate
open WindbgMcp.Structured (HostQpcSample)

def debugOption {α : Type} (display : α → String) : Option α → String
  | none => "None"
  | some value => "Some(" ++ display value ++ ")"

/-! ## The traces as they are read -/

structure M4Call where
  sequence : Nat
  hostQpc : Option HostQpcSample := none
  transitionKind : Option Nat := none
  service : Option Nat := none
  argumentBlock : Option String := none
  deriving DecidableEq, Repr

structure M4Trace where
  calls : List M4Call := []
  dropped : Nat := 0
  full : Bool := false
  unreadableHits : Nat := 0
  missingBreakpoint : Bool := false
  armed : Bool := false
  deriving DecidableEq, Repr

structure M5Transition where
  sequence : Nat
  hostQpc : Option HostQpcSample := none
  kind : String
  vpIndex : Option Nat := none
  sourceVtl : Option Nat := none
  targetVtl : Option Nat := none
  deriving DecidableEq, Repr

structure M5Trace where
  transitions : List M5Transition := []
  dropped : Nat := 0
  full : Bool := false
  unreadableHits : Nat := 0
  missingBreakpoints : Nat := 0
  armed : Bool := false
  deriving DecidableEq, Repr

structure M6Site where
  hostQpc : Option HostQpcSample := none
  deriving DecidableEq, Repr

structure M6Entry where
  site : M6Site
  service : Nat
  deriving DecidableEq, Repr

structure M6Field where
  name : String
  value : String
  deriving DecidableEq, Repr

/-- A buffer, with the two members of its `bytes` where they are texts. -/
structure M6Buffer where
  name : String
  state : Option String := none
  data : Option String := none
  deriving DecidableEq, Repr

structure M6Dispatch where
  site : M6Site
  fields : List M6Field := []
  buffersBefore : List M6Buffer := []
  deriving DecidableEq, Repr

structure M6Return where
  site : M6Site
  status : Option Nat := none
  deriving DecidableEq, Repr

structure M6Record where
  sequence : Nat
  complete : Bool := false
  incompleteReason : Option String := none
  entry : Option M6Entry := none
  dispatch : Option M6Dispatch := none
  returned : Option M6Return := none
  deriving DecidableEq, Repr

structure M6Trace where
  selectedService : Nat
  records : List M6Record := []
  droppedRecords : Nat := 0
  droppedCaptureBytes : Nat := 0
  unreadableFields : Nat := 0
  full : Bool := false
  armed : Bool := false
  pendingPhase : Option String := none
  deriving DecidableEq, Repr

/-- One layer's contribution: what its trace reads as, and the coordinator's brackets around its
arm and its drain. -/
structure LayerSource (τ : Type) where
  trace : Except String τ
  arm : Option RpcClockBracket := none
  drain : Option RpcClockBracket := none

/-! ## Normalized events -/

inductive Stage
  | m4Entry
  | m5VtlCall
  | m6Entry
  | m6Dispatch
  | m6Return
  | m5VtlReturn
  deriving DecidableEq, Repr

namespace Stage

def layer : Stage → Layer
  | m4Entry => .m4Vtl0
  | m5VtlCall | m5VtlReturn => .m5Hypervisor
  | m6Entry | m6Dispatch | m6Return => .m6Vtl1

def debug : Stage → String
  | m4Entry => "M4Entry"
  | m5VtlCall => "M5VtlCall"
  | m6Entry => "M6Entry"
  | m6Dispatch => "M6Dispatch"
  | m6Return => "M6Return"
  | m5VtlReturn => "M5VtlReturn"

end Stage

structure EventId where
  layer : Layer
  sequence : Nat
  stage : Stage
  deriving DecidableEq, Repr

structure M4Event where
  sequence : Nat
  hostQpc : Option HostQpcSample
  transitionKind : Option Nat
  service : Option Nat
  /-- A fully classified secure-service entry of the selected service. -/
  selected : Bool
  /-- Whether unreadable classification fields leave this hit able to be the selected service. -/
  candidate : Bool
  argumentBlock : Option String
  deriving DecidableEq, Repr

inductive TransitionKind
  | vtlCall
  | vtlReturn
  | other
  deriving DecidableEq, Repr

def TransitionKind.debug : TransitionKind → String
  | vtlCall => "VtlCall"
  | vtlReturn => "VtlReturn"
  | other => "Other"

structure M5Event where
  sequence : Nat
  hostQpc : Option HostQpcSample
  kind : TransitionKind
  vpIndex : Option Nat
  sourceVtl : Option Nat
  targetVtl : Option Nat
  deriving DecidableEq, Repr

structure PhaseStamp where
  hostQpc : Option HostQpcSample
  deriving DecidableEq, Repr

structure M6Event where
  sequence : Nat
  complete : Bool
  incompleteReason : Option String
  service : Option Nat
  entry : Option PhaseStamp
  dispatch : Option PhaseStamp
  returned : Option PhaseStamp
  status : Option Nat
  dispatchMode : Option Nat
  requestBefore : Option String
  deriving DecidableEq, Repr

/-! ## Marks and windows -/

inductive MarkKind
  | droppedRecords
  | missingBreakpoints
  | capacityReached
  | stillArmed
  | pendingPhase
  | unreadableFields
  | sequenceGap
  | duplicateSequence
  | incompleteRecord
  | foreignService
  | unmatchedReturn
  | unmatchedCall
  | unexpectedTransition
  | severalVps
  | orderContradiction
  | countMismatch
  | windowInvalid
  deriving DecidableEq, Repr

def MarkKind.debug : MarkKind → String
  | droppedRecords => "DroppedRecords"
  | missingBreakpoints => "MissingBreakpoints"
  | capacityReached => "CapacityReached"
  | stillArmed => "StillArmed"
  | pendingPhase => "PendingPhase"
  | unreadableFields => "UnreadableFields"
  | sequenceGap => "SequenceGap"
  | duplicateSequence => "DuplicateSequence"
  | incompleteRecord => "IncompleteRecord"
  | foreignService => "ForeignService"
  | unmatchedReturn => "UnmatchedReturn"
  | unmatchedCall => "UnmatchedCall"
  | unexpectedTransition => "UnexpectedTransition"
  | severalVps => "SeveralVps"
  | orderContradiction => "OrderContradiction"
  | countMismatch => "CountMismatch"
  | windowInvalid => "WindowInvalid"

/-- Something that stops a verdict being complete across the interval it names. -/
structure Mark where
  layer : Option Layer
  kind : MarkKind
  sequence : Option Nat := none
  afterSequence : Option Nat := none
  detail : String
  deriving DecidableEq, Repr

/-- When a layer was recording, in coordinator ticks: throughout `certain`, and not outside
`outer`. -/
structure Window where
  frequency : Nat
  outerFrom : Nat
  certainFrom : Nat
  certainTo : Nat
  outerTo : Nat
  deriving DecidableEq, Repr

inductive WindowRelation
  | disjoint
  | contains
  | containedBy
  | overlap
  | unknown
  deriving DecidableEq, Repr

namespace Window

def fromBrackets (arm drain : RpcClockBracket) : Except String Window :=
  let frequency := arm.coordinatorBefore.frequency
  if [arm.coordinatorAfter.frequency, drain.coordinatorBefore.frequency,
      drain.coordinatorAfter.frequency].any (fun other => other != frequency) ||
      frequency == 0 then
    .error "arm and drain brackets do not share one nonzero frequency"
  else if arm.coordinatorBefore.tick > arm.coordinatorAfter.tick ∨
      drain.coordinatorBefore.tick > drain.coordinatorAfter.tick ∨
      arm.coordinatorAfter.tick > drain.coordinatorAfter.tick then
    .error "arm and drain brackets are not in order"
  else
    .ok
      { frequency
        outerFrom := arm.coordinatorBefore.tick
        certainFrom := arm.coordinatorAfter.tick
        certainTo := drain.coordinatorBefore.tick
        outerTo := drain.coordinatorAfter.tick }

def isCertain (window : Window) : Bool := window.certainFrom ≤ window.certainTo

def relation (window other : Window) : WindowRelation :=
  if window.frequency ≠ other.frequency then .unknown
  else if window.outerTo < other.outerFrom ∨ other.outerTo < window.outerFrom then .disjoint
  else if window.isCertain ∧ window.certainFrom ≤ other.outerFrom ∧
      other.outerTo ≤ window.certainTo then .contains
  else if other.isCertain ∧ other.certainFrom ≤ window.outerFrom ∧
      window.outerTo ≤ other.certainTo then .containedBy
  else .overlap

end Window

structure LayerSummary where
  lastSequence : Option Nat
  contiguous : Bool
  dropped : Nat
  full : Bool
  missingBreakpoints : Nat
  armedAtRead : Bool
  window : Option Window
  deriving DecidableEq, Repr

/-- Whether rank pairing may treat this layer's events as the complete run of what happened
while it recorded. -/
def LayerSummary.completeRun (summary : LayerSummary) : Bool :=
  summary.contiguous && summary.dropped == 0 && summary.missingBreakpoints == 0 &&
    !summary.full && !summary.armedAtRead

/-- A layer's sequence numbers are one contiguous run without repeats, or what is not is marked. -/
def checkSequences (layer : Layer) : List Nat → Bool × List Mark
  | first :: second :: rest =>
    let behind := checkSequences layer (second :: rest)
    if second = first then
      (false,
        { layer := some layer
          kind := .duplicateSequence
          sequence := some first
          detail := "sequence " ++ toString first ++ " appears more than once" } :: behind.2)
    else if second ≠ first + 1 then
      (false,
        { layer := some layer
          kind := .sequenceGap
          afterSequence := some first
          detail := "sequences " ++ toString (first + 1) ++ " through " ++
            toString (second - 1) ++ " are missing" } :: behind.2)
    else behind
  | _ => (true, [])

structure Counters where
  dropped : Nat
  missingBreakpoints : Nat
  full : Bool
  unreadable : Nat
  armed : Bool
  pendingPhase : Option String

def markIf (holds : Bool) (mark : Mark) : List Mark := if holds then [mark] else []

def summarize {τ : Type} (layer : Layer) (sequences : List Nat) (counters : Counters)
    (source : LayerSource τ) : LayerSummary × List Mark :=
  let checked := checkSequences layer sequences
  let last := sequences.getLast?
  let tail (holds : Bool) (kind : MarkKind) (detail : String) : List Mark :=
    markIf holds { layer := some layer, kind, afterSequence := last, detail }
  let one := counters.missingBreakpoints == 1
  let window : Option Window × List Mark :=
    match source.arm, source.drain with
    | some arm, some drain =>
      match Window.fromBrackets arm drain with
      | .ok window => (some window, [])
      | .error message =>
        (none, [{ layer := some layer, kind := .windowInvalid, detail := message }])
    | _, _ => (none, [])
  ({ lastSequence := last
     contiguous := checked.1
     dropped := counters.dropped
     full := counters.full
     missingBreakpoints := counters.missingBreakpoints
     armedAtRead := counters.armed
     window := window.1 },
    checked.2 ++
      tail (0 < counters.dropped) .droppedRecords
        (toString counters.dropped ++ " events were dropped after the retained ones") ++
      tail (0 < counters.missingBreakpoints) .missingBreakpoints
        (toString counters.missingBreakpoints ++ " trace breakpoint" ++
          (if one then "" else "s") ++ " " ++ (if one then "was" else "were") ++
          " no longer held when read") ++
      tail counters.full .capacityReached
        "the trace reached its capacity; later events were not retained" ++
      tail counters.armed .stillArmed
        "the trace was still armed when read, so the read is a prefix" ++
      (match counters.pendingPhase with
      | some phase =>
        tail true .pendingPhase
          ("a call was in flight at the read, last observed at its " ++ phase ++ " phase")
      | none => []) ++
      markIf (0 < counters.unreadable)
        { layer := some layer
          kind := .unreadableFields
          detail := toString counters.unreadable ++ " typed reads did not answer" } ++
      window.2)

def sortBySequence {α : Type} (sequence : α → Nat) (events : List α) : List α :=
  events.insertionSort fun first second => sequence first ≤ sequence second

section Normalizing
variable (selectedService secureCallKind : Nat)

def M4Call.event (call : M4Call) : M4Event where
  sequence := call.sequence
  hostQpc := call.hostQpc
  transitionKind := call.transitionKind
  service := call.service
  selected := call.transitionKind == some secureCallKind && call.service == some selectedService
  candidate := call.transitionKind.all (fun kind => kind == secureCallKind) &&
    call.service.all fun service => service == selectedService
  argumentBlock := call.argumentBlock

def normalizeM4 (trace : M4Trace) (source : LayerSource M4Trace) :
    LayerSummary × List M4Event × List Mark :=
  let events := sortBySequence M4Event.sequence
    (trace.calls.map (M4Call.event selectedService secureCallKind))
  let summarized := summarize .m4Vtl0 (events.map M4Event.sequence)
    { dropped := trace.dropped
      missingBreakpoints := trace.missingBreakpoint.toNat
      full := trace.full
      unreadable := trace.unreadableHits
      armed := trace.armed
      pendingPhase := none } source
  (summarized.1, events, summarized.2)

def M5Transition.event (transition : M5Transition) : M5Event where
  sequence := transition.sequence
  hostQpc := transition.hostQpc
  kind :=
    if transition.kind = "vtl_call" then .vtlCall
    else if transition.kind = "vtl_return" then .vtlReturn
    else .other
  vpIndex := transition.vpIndex
  sourceVtl := transition.sourceVtl
  targetVtl := transition.targetVtl

def normalizeM5 (trace : M5Trace) (source : LayerSource M5Trace) :
    LayerSummary × List M5Event × List Mark :=
  let events := sortBySequence M5Event.sequence (trace.transitions.map M5Transition.event)
  let summarized := summarize .m5Hypervisor (events.map M5Event.sequence)
    { dropped := trace.dropped
      missingBreakpoints := trace.missingBreakpoints
      full := trace.full
      unreadable := trace.unreadableHits
      armed := trace.armed
      pendingPhase := none } source
  (summarized.1, events, summarized.2)

/-- A `u64` behind `0x` or `0X`. -/
def parseHex (text : String) : Option Nat :=
  (Text.afterFront "0x" text <|> Text.afterFront "0X" text).bind (Text.parseHex (2 ^ 64 - 1))

def stamp (site : M6Site) : PhaseStamp := ⟨site.hostQpc⟩

def M6Dispatch.field (dispatch : M6Dispatch) (name : String) : Option Nat :=
  (dispatch.fields.find? fun field => field.name == name).bind fun field => parseHex field.value

def M6Dispatch.requestBefore (dispatch : M6Dispatch) : Option String :=
  (dispatch.buffersBefore.find? fun buffer => buffer.name == "request.before").bind fun buffer =>
    if buffer.state = some "measured" then buffer.data else none

def M6Record.event (record : M6Record) : M6Event where
  sequence := record.sequence
  complete := record.complete
  incompleteReason := record.incompleteReason
  service := record.entry.map M6Entry.service
  entry := record.entry.map fun entry => stamp entry.site
  dispatch := record.dispatch.map fun dispatch => stamp dispatch.site
  returned := record.returned.map fun returned => stamp returned.site
  status := record.returned.bind M6Return.status
  dispatchMode := record.dispatch.bind fun dispatch => dispatch.field "dispatch_mode"
  requestBefore := record.dispatch.bind M6Dispatch.requestBefore

def M6Event.why (event : M6Event) : String := event.incompleteReason.getD "unstated"

def recordMarks (event : M6Event) : List Mark :=
  markIf (!event.complete)
    { layer := some .m6Vtl1
      kind := .incompleteRecord
      sequence := some event.sequence
      detail := "record " ++ toString event.sequence ++ " is incomplete (" ++ event.why ++ ")" } ++
  markIf (event.service.any fun service => service != selectedService)
    { layer := some .m6Vtl1
      kind := .foreignService
      sequence := some event.sequence
      detail := "record " ++ toString event.sequence ++ " carries service " ++
        debugOption toString event.service ++ ", not the selected " ++ toString selectedService }

def normalizeM6 (trace : M6Trace) (source : LayerSource M6Trace) :
    LayerSummary × List M6Event × List Mark :=
  let events := sortBySequence M6Event.sequence (trace.records.map M6Record.event)
  let summarized := summarize .m6Vtl1 (events.map M6Event.sequence)
    { dropped := trace.droppedRecords
      missingBreakpoints := 0
      full := trace.full
      unreadable := trace.unreadableFields
      armed := trace.armed
      pendingPhase := trace.pendingPhase } source
  (summarized.1, events,
    summarized.2 ++
      markIf (0 < trace.droppedCaptureBytes)
        { layer := some .m6Vtl1
          kind := .droppedRecords
          afterSequence := summarized.1.lastSequence
          detail := toString trace.droppedCaptureBytes ++ " captured bytes were dropped" } ++
      events.flatMap (recordMarks selectedService))

end Normalizing

/-! ## Clocks -/

structure Clock where
  point : Bool
  frequency : Option Nat
  deriving DecidableEq, Repr

/-- A tick comparable across layers: outside point mode no sample is, and inside it only a sample
on the admitted frequency is. -/
def Clock.tick (clock : Clock) (sample : Option HostQpcSample) : Option Nat :=
  if clock.point then
    (sample.filter fun sample => some sample.frequency == clock.frequency).map
      HostQpcSample.tick
  else none

section Sorting
variable {α : Type} {sequence : α → Nat} {events : List α}

theorem sortBySequence_perm : (sortBySequence sequence events).Perm events :=
  List.perm_insertionSort _ _

theorem sortBySequence_sorted :
    (sortBySequence sequence events).Pairwise fun first second =>
      sequence first ≤ sequence second := by
  have : Std.Total fun first second : α => sequence first ≤ sequence second :=
    ⟨fun first second => Nat.le_total _ _⟩
  have : IsTrans α fun first second => sequence first ≤ sequence second :=
    ⟨fun _ _ _ => Nat.le_trans⟩
  exact List.pairwise_insertionSort _ _

@[simp] theorem mem_sortBySequence {event : α} :
    event ∈ sortBySequence sequence events ↔ event ∈ events :=
  sortBySequence_perm.mem_iff

end Sorting

end WindbgMcp.SkJoin
