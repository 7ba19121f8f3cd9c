import WindbgMcp.KdConn.Connection
import WindbgMcp.Library.Program
import WindbgMcp.Structured
import Mathlib.Data.List.Destutter

/-! Identity and clock admission of a cross-layer capture (`skcorrelate.rs`): what the
coordinator froze before the capture against what an arm observed, and whether the
bracketed clock samples order points or only intervals. -/
namespace WindbgMcp.Correlate
open WindbgMcp.Library WindbgMcp.KdConn
open WindbgMcp.Structured (HostQpcSample)

inductive Layer
  | m4Vtl0
  | m5Hypervisor
  | m6Vtl1
  deriving DecidableEq, Repr

namespace Layer

def wireName : Layer → String
  | m4Vtl0 => "m4_vtl0"
  | m5Hypervisor => "m5_hypervisor"
  | m6Vtl1 => "m6_vtl1"

/-- The derived `Debug` form. -/
def debug : Layer → String
  | m4Vtl0 => "M4Vtl0"
  | m5Hypervisor => "M5Hypervisor"
  | m6Vtl1 => "M6Vtl1"

end Layer

structure LayerBinding where
  profile : String
  imageIdentitySha256 : String
  deriving DecidableEq, Repr

structure LayerBindings where
  m4Vtl0 : LayerBinding
  m5Hypervisor : LayerBinding
  m6Vtl1 : LayerBinding
  deriving DecidableEq, Repr

inductive WorkloadPlacement
  | hypervisorRoot
  | childPartition
  deriving DecidableEq, Repr

inductive M5HypervisorProvider
  | guestNested
  | externalL0
  deriving DecidableEq, Repr

inductive M6Vtl1Provider
  | outerVmwp
  | nestedParent
  deriving DecidableEq, Repr

structure TargetShape where
  nestedVirtualization : Bool
  guestHypervisorStarted : Bool
  workloadPlacement : WorkloadPlacement
  outerPartitionVtl1 : Bool
  nestedChildVtl1 : Bool
  m5Provider : M5HypervisorProvider
  m6Provider : M6Vtl1Provider
  deriving DecidableEq, Repr

inductive LayerUnavailableReason
  | m5GuestProviderNeedsNestedHypervisor
  | m5ExternalProviderNeedsRootWorkload
  | m5ExternalProviderCannotObserveNestedHypervisor
  | m6OuterProviderNeedsRootWorkload
  | m6OuterPartitionHasNoVtl1
  | m6NestedProviderNeedsNestedHypervisor
  | m6NestedProviderNeedsChildWorkload
  | m6NestedChildHasNoVtl1
  deriving DecidableEq, Repr

def LayerUnavailableReason.debug : LayerUnavailableReason → String
  | m5GuestProviderNeedsNestedHypervisor => "M5GuestProviderNeedsNestedHypervisor"
  | m5ExternalProviderNeedsRootWorkload => "M5ExternalProviderNeedsRootWorkload"
  | m5ExternalProviderCannotObserveNestedHypervisor =>
    "M5ExternalProviderCannotObserveNestedHypervisor"
  | m6OuterProviderNeedsRootWorkload => "M6OuterProviderNeedsRootWorkload"
  | m6OuterPartitionHasNoVtl1 => "M6OuterPartitionHasNoVtl1"
  | m6NestedProviderNeedsNestedHypervisor => "M6NestedProviderNeedsNestedHypervisor"
  | m6NestedProviderNeedsChildWorkload => "M6NestedProviderNeedsChildWorkload"
  | m6NestedChildHasNoVtl1 => "M6NestedChildHasNoVtl1"

structure LayerUnavailability where
  layer : Layer
  reason : LayerUnavailableReason
  deriving DecidableEq, Repr

def LayerUnavailability.debug (unavailable : LayerUnavailability) : String :=
  "LayerUnavailability \x7b layer: " ++ unavailable.layer.debug ++ ", reason: " ++
    unavailable.reason.debug ++ " \x7d"

namespace TargetShape

def m5Unavailable (shape : TargetShape) : Option LayerUnavailableReason :=
  match shape.m5Provider with
  | .guestNested =>
    if !shape.nestedVirtualization || !shape.guestHypervisorStarted then
      some .m5GuestProviderNeedsNestedHypervisor
    else none
  | .externalL0 =>
    if shape.workloadPlacement ≠ .hypervisorRoot then
      some .m5ExternalProviderNeedsRootWorkload
    else if shape.nestedVirtualization then
      some .m5ExternalProviderCannotObserveNestedHypervisor
    else none

def m6Unavailable (shape : TargetShape) : Option LayerUnavailableReason :=
  match shape.m6Provider with
  | .outerVmwp =>
    if shape.workloadPlacement ≠ .hypervisorRoot then some .m6OuterProviderNeedsRootWorkload
    else if !shape.outerPartitionVtl1 then some .m6OuterPartitionHasNoVtl1
    else none
  | .nestedParent =>
    if !shape.nestedVirtualization || !shape.guestHypervisorStarted then
      some .m6NestedProviderNeedsNestedHypervisor
    else if shape.workloadPlacement ≠ .childPartition then
      some .m6NestedProviderNeedsChildWorkload
    else if !shape.nestedChildVtl1 then some .m6NestedChildHasNoVtl1
    else none

def unavailableLayers (shape : TargetShape) : List LayerUnavailability :=
  (shape.m5Unavailable.map (LayerUnavailability.mk .m5Hypervisor)).toList ++
    (shape.m6Unavailable.map (LayerUnavailability.mk .m6Vtl1)).toList

end TargetShape

structure ParentIdentity where
  vmId : String
  guestBootIdentity : String
  vmwpPid : Nat
  deriving DecidableEq, Repr

structure CaptureIdentity where
  schema : String
  captureId : String
  vmId : String
  guestBootIdentity : String
  vmwpPid : Nat
  parent : Option ParentIdentity
  workloadLabel : String
  processorCount : Nat
  targetShape : TargetShape
  layers : LayerBindings
  deriving DecidableEq, Repr

def captureSchema : String := "windbg-mcp.sk-correlation-capture.v1"

def isPrintable (value : String) : Bool :=
  !value.isEmpty && decide (value.utf8ByteSize ≤ 128) && !value.toList.any isControl

def isLowercaseSha256 (digest : String) : Bool :=
  digest.utf8ByteSize == 64 &&
    digest.toList.all fun c => c.isDigit || ('a'.toNat ≤ c.toNat && c.toNat ≤ 'f'.toNat)

namespace CaptureIdentity

def checkPrintable (named : String × String) : Except String Unit :=
  if isPrintable named.2 then .ok ()
  else .error (named.1 ++ " must contain 1 through 128 printable bytes")

def checkParent (identity : CaptureIdentity) : Except String Unit :=
  match identity.targetShape.workloadPlacement, identity.parent with
  | .childPartition, some parent => do
    [("parent.vm_id", parent.vmId),
      ("parent.guest_boot_identity", parent.guestBootIdentity)].forM checkPrintable
    if parent.vmwpPid = 0 then throw "parent.vmwp_pid must be nonzero"
    if parent.vmId = identity.vmId then
      throw "parent.vm_id must differ from the child workload vm_id"
  | .childPartition, none => throw "a child-partition workload requires its parent identity"
  | .hypervisorRoot, some _ =>
    throw "a hypervisor-root workload must not carry a parent identity"
  | .hypervisorRoot, none => pure ()

def checkBinding (named : String × LayerBinding) : Except String Unit := do
  if !isPrintable named.2.profile then
    throw (named.1 ++ " profile is not a printable bounded identity")
  if !isLowercaseSha256 named.2.imageIdentitySha256 then
    throw (named.1 ++ " image identity must be one lowercase SHA-256 digest")

def validate (identity : CaptureIdentity) : Except String Unit := do
  if identity.schema ≠ captureSchema then
    throw ("unsupported M7 capture schema " ++ identity.schema)
  [("capture_id", identity.captureId), ("vm_id", identity.vmId),
    ("guest_boot_identity", identity.guestBootIdentity),
    ("workload_label", identity.workloadLabel)].forM checkPrintable
  if identity.vmwpPid = 0 then throw "vmwp_pid must be nonzero"
  identity.checkParent
  if identity.processorCount ≠ 1 then
    throw ("M7 admits exactly one runnable processor, observed " ++
      toString identity.processorCount)
  let unavailable := identity.targetShape.unavailableLayers
  if !unavailable.isEmpty then
    throw ("M7 target shape does not expose all three layers in one live topology: [" ++
      String.intercalate ", " (unavailable.map LayerUnavailability.debug) ++ "]")
  [("m4_vtl0", identity.layers.m4Vtl0), ("m5_hypervisor", identity.layers.m5Hypervisor),
    ("m6_vtl1", identity.layers.m6Vtl1)].forM checkBinding

end CaptureIdentity

inductive IdentityAdmissionError
  | drift (fields : List String)
  | invalid (message : String)
  deriving DecidableEq, Repr

/-- The derived `Debug` form; `quoted` stands for the formatter's `{:?}` of a string. -/
def IdentityAdmissionError.debug (quoted : String → String) : IdentityAdmissionError → String
  | drift fields =>
    "Drift(IdentityDrift \x7b fields: [" ++ String.intercalate ", " (fields.map quoted) ++
      "] \x7d)"
  | invalid message => "Invalid(" ++ quoted message ++ ")"

def parentDrift : Option ParentIdentity → Option ParentIdentity → List (Bool × String)
  | none, none => []
  | some before, some after =>
    [(before.vmId != after.vmId, "parent.vm_id"),
      (before.guestBootIdentity != after.guestBootIdentity, "parent.guest_boot_identity"),
      (before.vmwpPid != after.vmwpPid, "parent.vmwp_pid")]
  | _, _ => [(true, "parent")]

def bindingDrift (name : String) (before after : LayerBinding) : List (Bool × String) :=
  [(before.profile != after.profile, "layers." ++ name ++ ".profile"),
    (before.imageIdentitySha256 != after.imageIdentitySha256,
      "layers." ++ name ++ ".image_identity_sha256")]

def shapeDrift (before after : TargetShape) : List (Bool × String) :=
  [(before.nestedVirtualization != after.nestedVirtualization,
      "target_shape.nested_virtualization"),
    (before.guestHypervisorStarted != after.guestHypervisorStarted,
      "target_shape.guest_hypervisor_started"),
    (before.workloadPlacement != after.workloadPlacement, "target_shape.workload_placement"),
    (before.outerPartitionVtl1 != after.outerPartitionVtl1,
      "target_shape.outer_partition_vtl1"),
    (before.nestedChildVtl1 != after.nestedChildVtl1, "target_shape.nested_child_vtl1"),
    (before.m5Provider != after.m5Provider, "target_shape.m5_provider"),
    (before.m6Provider != after.m6Provider, "target_shape.m6_provider")]

/-- The preflight identity holds only if the arm observed exactly the same capture. -/
def admitIdentity (preflight armed : CaptureIdentity) : Except IdentityAdmissionError Unit :=
  let changed :=
    [(preflight.schema != armed.schema, "schema"),
      (preflight.captureId != armed.captureId, "capture_id"),
      (preflight.vmId != armed.vmId, "vm_id"),
      (preflight.guestBootIdentity != armed.guestBootIdentity, "guest_boot_identity"),
      (preflight.vmwpPid != armed.vmwpPid, "vmwp_pid")] ++
    parentDrift preflight.parent armed.parent ++
    [(preflight.workloadLabel != armed.workloadLabel, "workload_label"),
      (preflight.processorCount != armed.processorCount, "processor_count")] ++
    shapeDrift preflight.targetShape armed.targetShape ++
    bindingDrift "m4_vtl0" preflight.layers.m4Vtl0 armed.layers.m4Vtl0 ++
    bindingDrift "m5_hypervisor" preflight.layers.m5Hypervisor armed.layers.m5Hypervisor ++
    bindingDrift "m6_vtl1" preflight.layers.m6Vtl1 armed.layers.m6Vtl1
  let fields := changed.filterMap fun (drifted, field) => if drifted then some field else none
  if !fields.isEmpty then .error (.drift fields)
  else do
    preflight.validate.mapError .invalid
    armed.validate.mapError .invalid

/-! ## Clocks -/

/-- Coordinator samples around one call, and the sample the worker returned from inside it. -/
structure RpcClockBracket where
  layer : String
  operation : String
  coordinatorBefore : HostQpcSample
  worker : Option HostQpcSample
  coordinatorAfter : HostQpcSample
  deriving DecidableEq, Repr

inductive ClockMode
  | point
  | intervalOnly
  deriving DecidableEq, Repr

structure ClockAdmission where
  mode : ClockMode
  frequency : Option Nat
  resolutionNs : Option Nat
  maxSkewTicks : Nat
  reasons : List String
  brackets : List RpcClockBracket
  deriving DecidableEq, Repr

namespace RpcClockBracket

def name (bracket : RpcClockBracket) : String := bracket.layer ++ "." ++ bracket.operation

def sampleReason (bracket : RpcClockBracket) (expected : Nat) :
    String × Option HostQpcSample → Option String
  | (source, some sample) =>
    if sample.frequency = expected ∧ sample.frequency ≠ 0 then none
    else some (bracket.name ++ "." ++ source ++ ": frequency_mismatch")
  | (source, none) => some (bracket.name ++ "." ++ source ++ ": unavailable")

/-- Why this bracket does not order points. -/
def reasons (bracket : RpcClockBracket) (expected maxSkewTicks : Nat) : List String :=
  [("coordinator_before", some bracket.coordinatorBefore), ("worker", bracket.worker),
    ("coordinator_after", some bracket.coordinatorAfter)].filterMap
      (bracket.sampleReason expected) ++
    (if bracket.coordinatorAfter.tick - bracket.coordinatorBefore.tick > maxSkewTicks then
      [bracket.name ++ ": bracket_exceeds_skew"] else []) ++
    match bracket.worker with
    | some worker =>
      if worker.tick < bracket.coordinatorBefore.tick ∨
          worker.tick > bracket.coordinatorAfter.tick then
        [bracket.name ++ ": worker_outside_bracket"]
      else []
    | none => []

end RpcClockBracket

def admitBrackets (maxSkewTicks : Nat) :
    List RpcClockBracket → Option Nat → List String → Except String (Option Nat × List String)
  | [], frequency, reasons => .ok (frequency, reasons)
  | bracket :: brackets, frequency, reasons =>
    if bracket.layer.isEmpty || bracket.operation.isEmpty then
      .error "clock brackets need a layer and operation"
    else if bracket.coordinatorBefore.tick > bracket.coordinatorAfter.tick then
      .error (bracket.name ++ " coordinator clock moved backwards")
    else
      let expected := frequency.getD bracket.coordinatorBefore.frequency
      admitBrackets maxSkewTicks brackets (some expected)
        (reasons ++ bracket.reasons expected maxSkewTicks)

/-- Whether raw points are authoritative.  The outer `Except` is the panic of an absent
frequency or of a division by zero. -/
def admitClock (brackets : List RpcClockBracket) (maxSkewTicks : Nat) :
    Except String (Except String ClockAdmission) :=
  if brackets.isEmpty then
    .ok (.error "M7 clock admission needs at least one bracketed RPC")
  else
    match admitBrackets maxSkewTicks brackets none [] with
    | .error message => .ok (.error message)
    | .ok (frequency, reasons) =>
      let reasons := (reasons.mergeSort fun reason other => decide (reason ≤ other)).destutter
        (· ≠ ·)
      if reasons.isEmpty then
        match frequency with
        | none => .error "a nonempty bracket set has a frequency"
        | some 0 => .error "attempt to divide by zero"
        | some frequency =>
          .ok (.ok
            { mode := .point
              frequency := some frequency
              resolutionNs := some ((1000000000 + frequency - 1) / frequency)
              maxSkewTicks, reasons, brackets })
      else
        .ok (.ok
          { mode := .intervalOnly
            frequency := none
            resolutionNs := none
            maxSkewTicks, reasons, brackets })

theorem admitBrackets_frequency {maxSkewTicks : Nat} {brackets : List RpcClockBracket} :
    ∀ {frequency : Option Nat} {reasons : List String} {fixed : Option Nat} {all : List String},
      admitBrackets maxSkewTicks brackets frequency reasons = .ok (fixed, all) →
      (reasons = [] → frequency ≠ some 0) → (brackets ≠ [] ∨ frequency ≠ none) → all = [] →
      ∃ value, fixed = some value ∧ value ≠ 0 := by
  induction brackets with
  | nil =>
    intro frequency reasons fixed all h hzero hsome hall
    cases h
    obtain ⟨value, rfl⟩ := Option.ne_none_iff_exists'.mp (hsome.resolve_left (by simp))
    refine ⟨value, rfl, ?_⟩
    rintro rfl
    exact hzero hall rfl
  | cons bracket brackets ih =>
    intro frequency reasons fixed all h hzero hsome hall
    simp only [admitBrackets] at h
    split at h
    · cases h
    split at h
    · cases h
    refine ih h ?_ (Or.inr (by simp)) hall
    -- the sample before the call has the expected frequency, and it is not zero
    intro hreasons hexpected
    have hbracket := (List.append_eq_nil_iff.mp hreasons).2
    simp only [Option.some.injEq] at hexpected
    simp [RpcClockBracket.reasons, RpcClockBracket.sampleReason, hexpected] at hbracket

theorem admitClock_total (brackets : List RpcClockBracket) (maxSkewTicks : Nat) :
    ∃ admission, admitClock brackets maxSkewTicks = .ok admission := by
  unfold admitClock
  split
  · exact ⟨_, rfl⟩
  rename_i hbrackets
  split
  · exact ⟨_, rfl⟩
  rename_i frequency reasons hadmitted
  simp only
  split
  · rename_i hreasons
    have hall : reasons = [] := by
      simp only [List.isEmpty_iff, List.destutter_eq_nil] at hreasons
      rw [← List.length_eq_zero_iff, ← List.length_mergeSort, hreasons]
      rfl
    obtain ⟨value, rfl, hvalue⟩ := admitBrackets_frequency hadmitted (by simp)
      (Or.inl (by simpa using hbrackets)) hall
    obtain ⟨value, rfl⟩ := Nat.exists_eq_succ_of_ne_zero hvalue
    exact ⟨_, rfl⟩
  · exact ⟨_, rfl⟩

end WindbgMcp.Correlate
