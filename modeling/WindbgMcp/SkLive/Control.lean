import Mathlib.Data.List.Dedup
import WindbgMcp.Library.Text
import WindbgMcp.SkLive.Guards

/-! One live-control session over its providers: what it reads, what it restores when it
leaves a stop, and how it goes on with other breakpoints.  A provider compares a register
with the value it is expected to hold and sets it, or refuses. -/
namespace WindbgMcp.SkLive
open Library SkControl

/-! ### Register snapshots -/

def tf : Nat := 1 <<< 8
def rf : Nat := 1 <<< 16
def dr6CauseMask : Nat := 0xe00f
def dr7EnableMask : Nat := 0xff

/-- `!word` of a 64-bit word. -/
def complement (word : Nat) : Nat := 2 ^ 64 - 1 - word

def snapshotRegisters : List RegisterName :=
  [.rip, .rsp, .rflags, .cr3, .cs, .dr0, .dr1, .dr2, .dr3, .dr6, .dr7, .vsmVpStatus]

structure RegisterSnapshot where
  values : List RegisterValue
  deriving DecidableEq, Repr

namespace RegisterSnapshot

def value (snapshot : RegisterSnapshot) (name : RegisterName) : Except String RegisterValue :=
  (snapshot.values.find? fun value => value.name = name).elim
    (.error ("register snapshot omitted " ++ name.name)) .ok

def low (snapshot : RegisterSnapshot) (name : RegisterName) : Except String Nat :=
  (·.low) <$> snapshot.value name

def checkValues : List RegisterName → List RegisterValue → Except String Unit
  | wanted :: names, value :: values => do
    insist (value.name = wanted) "register snapshot returned values in the wrong order"
    insist (value.status = 0)
      s!"provider returned status {Text.hex value.status} for {value.name.name}"
    insist (value.name = .cs ∨ value.high = 0)
      s!"provider returned a nonzero high half for {value.name.name}"
    checkValues names values
  | _, _ => .ok ()

def checkCr3 (observed : Nat) (allowTransitionCr3 : Bool) : Option Nat → Except String Unit
  | some expected =>
    insist (observed = expected)
      (s!"the stopped CR3 {Text.hex observed} does not match the required address space " ++
        Text.hex expected)
  | none => do
    insist allowTransitionCr3 "a transition CR3 was not enabled for this session"
    insist (observed ≠ 0 ∧ observed &&& 0xfff = 0)
      "the transition CR3 must be nonzero and page aligned"

def fromValues (values : List RegisterValue) (expectedCr3 : Option Nat)
    (allowTransitionCr3 : Bool) : Except String RegisterSnapshot := do
  insist (values.length = snapshotRegisters.length)
    (s!"register snapshot returned {values.length} values, " ++
      s!"expected {snapshotRegisters.length}")
  checkValues snapshotRegisters values
  let observed ← (RegisterSnapshot.mk values).low .cr3
  checkCr3 observed allowTransitionCr3 expectedCr3
  return ⟨values⟩

end RegisterSnapshot

/-! ### The session -/

inductive ProviderPhase where
  | running
  | arming
  | stopped
  deriving DecidableEq, Repr

/-- One selected VP, with the registers its provider reads and writes. -/
structure VpControl where
  target : TargetIdentity
  low : RegisterName → Nat
  high : RegisterName → Nat
  providerPhase : ProviderPhase
  baseline : Option RegisterSnapshot
  observedCr3 : Option Nat

namespace VpControl

def value (vp : VpControl) (name : RegisterName) : RegisterValue :=
  ⟨name, 0, vp.low name, vp.high name⟩

def put (vp : VpControl) (name : RegisterName) (value : Nat) : VpControl :=
  { vp with low := fun other => if other = name then value else vp.low other }

def cr3 (vp : VpControl) : Nat := vp.observedCr3.getD vp.target.expectedCr3

end VpControl

structure StopRecord where
  epoch : StopEpoch
  target : TargetIdentity
  event : HeldEvent
  registers : RegisterSnapshot
  instruction : InstructionGuard
  expectedRips : List Nat
  armMode : ArmMode
  deriving DecidableEq, Repr

inductive ExpectedStop where
  | hardware
  | breakRequest (slot : Nat)
  | singleStep (instruction : InstructionGuard) (expectedRips : List Nat) (cr3 : Nat)
  | stepOver (instruction : InstructionGuard) (destination slot : Nat)
  | software (instructions : List InstructionGuard) (cr3 : Nat)
  deriving DecidableEq, Repr

inductive State where
  | running
  | arming
  | stopped (stop : StopRecord)
  | releasing
  | faulted
  | closed
  deriving DecidableEq, Repr

structure LiveControl where
  providers : List VpControl
  activeProvider : Option Nat
  epochNonce : String
  epochSerial : Nat
  publicEpoch : StopEpoch
  state : State
  breakpoints : List BreakpointGuard
  armMode : Option ArmMode
  dispatcherContext : Option Nat
  softwareBreakpointContext : Option Nat
  dispatcherEvent : Option HeldEvent
  expectedStop : Option ExpectedStop
  softwareRestartRipUnproved : Bool
  allowTransitionCr3 : Bool
  /-- A mask over the slots another controller owns. -/
  reservedSlots : Nat
  /-- How many exchanges its providers were asked for. -/
  exchanges : Nat

/-- What providers and dispatcher say beyond what the registers decide: a provider may
refuse any exchange, and the dispatcher an instruction or the release. -/
structure World where
  refuses : Nat → Option String
  verifies : InstructionGuard → Option String
  releases : Option String

abbrev Live := Fallible LiveControl

namespace LiveControl

def ownedSlots (session : LiveControl) (extra : List Nat) : List Nat :=
  ((session.breakpoints.map (·.slot) ++ extra).insertionSort (· ≤ ·)).dedup

def ownedRegisters (session : LiveControl) (extra : List Nat) : List RegisterName :=
  (session.ownedSlots extra).map breakpointRegister

def ownedCauseMask (session : LiveControl) (extra : List Nat) : Nat :=
  (session.ownedSlots extra).foldl (fun mask slot => mask ||| 1 <<< slot) 0

def matchesOutsideForeignSlots (session : LiveControl) (left right : RegisterSnapshot) : Bool :=
  let foreign (name : RegisterName) : Bool :=
    [.dr0, .dr1, .dr2, .dr3].contains name && !(session.ownedRegisters []).contains name
  left.values.length = right.values.length &&
    (left.values.zip right.values).all fun pair =>
      pair.1 = pair.2 || pair.1.name = pair.2.name && foreign pair.1.name

def requireUnreserved (session : LiveControl) (breakpoints : List BreakpointGuard) :
    Except String Unit :=
  match breakpoints.find? fun breakpoint => session.reservedSlots.testBit breakpoint.slot with
  | some breakpoint =>
    .error (s!"hardware breakpoint slot {breakpoint.slot} is reserved for another controller " ++
      "on this VP")
  | none => .ok ()

def requireStopEpoch (session : LiveControl) (epoch : StopEpoch) : Except String StopRecord :=
  match session.state with
  | .stopped stop => do
    insist (stop.epoch = epoch ∧ session.publicEpoch = epoch) "the supplied stop epoch is stale"
    let active ← session.activeProvider.elim
      (.error "the stopped session has no active VP provider") .ok
    let vp ← session.providers[active]?.elim (.error "index out of bounds") .ok
    insist (vp.providerPhase = .stopped ∨ vp.providerPhase = .arming)
      "the active provider is not quiesced"
    return stop
  | _ => .error "operation requires a stopped session"

def nextEpoch (session : LiveControl) (phase : String) : Except String (Nat × StopEpoch) := do
  let serial := session.epochSerial + 1
  insist (serial < 2 ^ 64) "the live-control epoch counter overflowed"
  let epoch ← StopEpoch.new
    s!"control-{session.epochNonce}-{phase}-{Text.hexPadded 16 serial}"
  return (serial, epoch)

end LiveControl

/-! ### Exchanges -/

variable (world : World) (index : Nat)

def ask : Live Unit := do
  let session ← get
  set { session with exchanges := session.exchanges + 1 }
  (world.refuses session.exchanges).elim (pure ()) throw

def provider : Live VpControl := do
  let session ← get
  session.providers[index]?.elim (throw "index out of bounds") pure

def setProvider (vp : VpControl) : Live Unit :=
  modify fun session => { session with providers := session.providers.set index vp }

def readRegisters (names : List RegisterName) : Live (List RegisterValue) := do
  ask world
  let vp ← provider index
  return names.map vp.value

def writeRegisters (writes : List RegisterWrite) : Live (List RegisterValue) := do
  ask world
  writes.mapM fun write => do
    let vp ← provider index
    liftM (insist (vp.low write.name = write.expected)
      s!"{write.name.name} does not hold the expected value")
    setProvider index (vp.put write.name write.value)
    return (vp.put write.name write.value).value write.name

def readSnapshot (expectedCr3 : Option Nat) (allowTransitionCr3 : Bool) :
    Live RegisterSnapshot := do
  let values ← readRegisters world index snapshotRegisters
  liftM (RegisterSnapshot.fromValues values expectedCr3 allowTransitionCr3)

def readCurrent : Live RegisterSnapshot := do
  let vp ← provider index
  let session ← get
  readSnapshot world index (some vp.cr3) session.allowTransitionCr3

def writeOne (name : RegisterName) (expected value : Nat) : Live Unit := do
  match ← writeRegisters world index [⟨name, expected, value⟩] with
  | [written] =>
    liftM (insist (written.name = name ∧ written.status = 0 ∧ written.low = value)
      s!"provider did not verify the guarded write to {name.name}")
  | _ => throw "provider returned the wrong number of guarded-write results"

/-! ### Restoration -/

def savedBaseline (missing : String) : Live RegisterSnapshot := do
  let vp ← provider index
  vp.baseline.elim (throw missing) pure

def disableBreakpoints (current : RegisterSnapshot) : Live Unit := do
  let dr7 ← liftM (current.low .dr7)
  writeOne world index .dr7 dr7 (dr7 &&& complement dr7EnableMask)

def restoreDr7 (baseline : RegisterSnapshot) : Live Unit := do
  let current ← readCurrent world index
  let disabled ← liftM (current.low .dr7)
  let saved ← liftM (baseline.low .dr7)
  writeOne world index .dr7 disabled saved

def restoreRedirectBaseline : Live Unit := do
  let baseline ← savedBaseline index "there is no saved VTL1 baseline"
  let current ← readCurrent world index
  disableBreakpoints world index current
  let session ← get
  let names := [RegisterName.rflags, .rip, .rsp] ++ session.ownedRegisters [] ++ [.dr6]
  names.forM fun name => do
    let held ← liftM (current.low name)
    let saved ← liftM (baseline.low name)
    writeOne world index name held saved
  restoreDr7 world index baseline
  let restored ← readCurrent world index
  liftM (insist (session.matchesOutsideForeignSlots restored baseline = true)
    "restored VTL1 state does not match the saved baseline")

def checkNaturalControl (owned : List RegisterName) (restored baseline : RegisterSnapshot) :
    Except String Unit := do
  owned.forM fun name => do
    let held ← restored.low name
    let saved ← baseline.low name
    insist (held = saved) "restored natural-flow debug state does not match the saved baseline"
  let held ← restored.low .rflags
  let saved ← baseline.low .rflags
  insist (held &&& (tf ||| rf) = saved &&& (tf ||| rf))
    "restored natural-flow TF/RF state does not match the saved baseline"

/-- Writes back what this controller owns, and nothing the guest has since made of RIP,
RSP or its other flags. -/
def rewriteNaturalControl (baseline : RegisterSnapshot) (owned : List RegisterName) :
    Live Unit := do
  let current ← readCurrent world index
  disableBreakpoints world index current
  let current ← readCurrent world index
  let flags ← liftM (current.low .rflags)
  let saved ← liftM (baseline.low .rflags)
  writeOne world index .rflags flags
    ((flags &&& complement (tf ||| rf)) ||| (saved &&& (tf ||| rf)))
  owned.forM fun name => do
    let current ← readCurrent world index
    let held ← liftM (current.low name)
    let saved ← liftM (baseline.low name)
    writeOne world index name held saved
  restoreDr7 world index baseline

def restoreNaturalControl : Live Unit := do
  let baseline ← savedBaseline index "there is no saved VTL1 baseline"
  let session ← get
  let owned := session.ownedRegisters [] ++ [.dr6]
  rewriteNaturalControl world index baseline owned
  let restored ← readCurrent world index
  liftM (checkNaturalControl (owned ++ [.dr7]) restored baseline)

def restoreOwnedState : Live Unit := do
  let session ← get
  match session.armMode with
  | none => throw "there is no saved arm mode"
  | some .redirect => restoreRedirectBaseline world index
  | some .natural => restoreNaturalControl world index

/-! ### Going on with other breakpoints -/

def installBreakpoints (baseline : RegisterSnapshot) (breakpoints : List BreakpointGuard) :
    Live Unit := do
  let dr7 ← liftM (baseline.low .dr7)
  let enableMask := breakpoints.foldl (fun mask breakpoint => mask ||| breakpoint.enableMask) 0
  let kindMask := breakpoints.foldl (fun mask breakpoint => mask ||| breakpoint.kindMask) 0
  breakpoints.forM fun breakpoint => do
    let held ← liftM (baseline.low breakpoint.register)
    writeOne world index breakpoint.register held breakpoint.instruction.address
  let dr6 ← liftM (baseline.low .dr6)
  writeOne world index .dr6 dr6 (dr6 &&& complement dr6CauseMask)
  writeOne world index .dr7 dr7
    ((dr7 &&& complement (dr7EnableMask ||| kindMask)) ||| enableMask)

/-- RF keeps a breakpoint at the stop's instruction from firing again before the
instruction executes. -/
def suppressRepeat (stop : StopRecord) (breakpoints : List BreakpointGuard) : Live Unit := do
  if breakpoints.any fun breakpoint =>
      breakpoint.instruction.address = stop.instruction.address then
    let current ← readCurrent world index
    let flags ← liftM (current.low .rflags)
    liftM (insist (flags &&& (tf ||| rf) = 0)
      "replacement breakpoint suppression requires clear TF and RF")
    writeOne world index .rflags flags (flags ||| rf)

def releaseProvider : Live Unit := do
  let vp ← provider index
  match vp.providerPhase with
  | .running => throw "the active provider is already running"
  | _ =>
    ask world
    setProvider index { vp with providerPhase := .running }
    world.releases.elim (pure ()) throw

def replaceBreakpoints (stop : StopRecord) (breakpoints : List BreakpointGuard) :
    Live Unit := do
  restoreOwnedState world index
  let baseline ← savedBaseline index "the stopped session has no saved baseline"
  let flags ← liftM (baseline.low .rflags)
  liftM (insist (flags &&& (tf ||| rf) = 0)
    "continuing to breakpoints requires the saved TF and RF to be clear")
  installBreakpoints world index baseline breakpoints
  suppressRepeat world index stop breakpoints
  releaseProvider world index

def orFault {α : Type} (action : Live α) : Live α :=
  tryCatch action fun why => do
    modify fun session => { session with state := .faulted }
    throw why

def verifyInstruction (instruction : InstructionGuard) : Live Unit :=
  (world.verifies instruction).elim (pure ()) throw

def continueWithBreakpoints (epoch : StopEpoch) (breakpoints : List BreakpointGuard) :
    Live StopEpoch := do
  let session ← get
  liftM (session.requireUnreserved breakpoints)
  let stop ← liftM (session.requireStopEpoch epoch)
  liftM (insist (session.providers.length = 1)
    ("continue-to-breakpoints currently requires exactly one selected VP; multi-VP " ++
      "re-arming needs a new VM-wide quiescence proof"))
  breakpoints.forM fun breakpoint => verifyInstruction world breakpoint.instruction
  let next ← liftM (session.nextEpoch "running")
  let active ← session.activeProvider.elim
    (throw "the stopped session has no active VP provider") pure
  modify fun session => { session with state := .releasing }
  orFault (replaceBreakpoints world active stop breakpoints)
  modify fun session => { session with
    activeProvider := none
    breakpoints := breakpoints
    armMode := some .natural
    dispatcherEvent := none
    expectedStop := some .hardware
    state := .running
    epochSerial := next.1
    publicEpoch := next.2 }
  return next.2

def continueToBreakpoints (epoch : StopEpoch) (breakpoints : List BreakpointGuard) :
    Live StopEpoch := do
  liftM (validateBreakpoints breakpoints .natural)
  continueWithBreakpoints world epoch breakpoints

end WindbgMcp.SkLive
