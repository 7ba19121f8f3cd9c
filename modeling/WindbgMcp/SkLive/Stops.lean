import WindbgMcp.SkLive.Control

/-! How a live-control session accepts the stop it waits for.  The registers have to carry
the evidence of the stop that was expected; which instruction the record then names depends
on that stop. -/
namespace WindbgMcp.SkLive
open Library SkControl

def setBits (word : Nat) : List Nat := (List.range 64).filter word.testBit

/-- What a wait was told by the dispatcher, and by the provider of the stopped VP. -/
structure Observed where
  event : HeldEvent
  instructions : List InstructionGuard
  /-- The event the provider says it holds. -/
  echoed : HeldEvent
  /-- The pause bound had expired. -/
  late : Bool
  bindsCr3 : Option String
  singleProcessorScope : Bool
  preservesPageTableMapping : InstructionGuard → Except String Bool
  restoresSoftwareBreakpoints : Option String

abbrev Evidence := StopReason × InstructionGuard × List Nat

namespace LiveControl

variable (session : LiveControl) (event : HeldEvent) (registers : RegisterSnapshot)

def expectedInstructions : ExpectedStop → List InstructionGuard
  | .hardware | .breakRequest _ => session.breakpoints.map (·.instruction)
  | _ => []

def validateObservation (vp : VpControl) (observed : Observed) (expected : ExpectedStop) :
    Except String Unit := do
  observed.event.validate vp.target
  let software := match expected with
    | .software _ _ => true
    | _ => false
  let context := if software then session.softwareBreakpointContext else session.dispatcherContext
  insist (some observed.event.dispatcherContext = context)
    "the dispatcher event context does not match the registered exception handler"
  insist (observed.instructions = session.expectedInstructions expected)
    "a guarded instruction changed before the stop was accepted"
  insist (observed.event.reason = if software then .breakpointException else .debugException)
    "the dispatcher event vector does not match the expected stop class"

def validateHardwareStop (requested : Option Nat) : Except String Evidence := do
  insist (event.reason = .debugException)
    "the held dispatcher event is not an unclassified debug exception"
  let dr6 ← registers.low .dr6
  let causes := setBits (dr6 &&& session.ownedCauseMask [])
  insist (causes.length = 1)
    (s!"hardware-stop DR6 {Text.hex dr6} must name exactly one of this controller's " ++
      "breakpoint slots")
  let slot := causes.headD 64
  let breakpoint ← (session.breakpoints.find? fun breakpoint => breakpoint.slot = slot).elim
    (.error s!"DR6 named unowned hardware breakpoint slot {slot}") .ok
  let rip ← registers.low .rip
  let armed ← registers.low breakpoint.register
  let dr7 ← registers.low .dr7
  insist (rip = breakpoint.instruction.address ∧ armed = breakpoint.instruction.address ∧
      dr7 &&& breakpoint.enableMask ≠ 0)
    s!"slot-{slot} stop register evidence does not match the armed breakpoint"
  let reason := if requested = some slot then .breakRequest slot else .hardwareBreakpoint slot
  return (reason, breakpoint.instruction, [breakpoint.instruction.address])

def validateSingleStep (instruction : InstructionGuard) (expectedRips : List Nat) :
    Except String Evidence := do
  insist (event.reason = .debugException)
    "the held dispatcher event is not an unclassified debug exception"
  let rip ← registers.low .rip
  let dr6 ← registers.low .dr6
  let flags ← registers.low .rflags
  insist (rip ∈ expectedRips ∧ dr6 &&& 1 <<< 14 ≠ 0 ∧ dr6 &&& session.ownedCauseMask [] = 0 ∧
      flags &&& tf ≠ 0 ∧ flags &&& rf = 0)
    ("single-step register evidence does not carry the allowed RIP, DR6.BS, TF, " ++
      "and clear RF")
  return (.singleStep, instruction, expectedRips)

def validateStepOver (instruction : InstructionGuard) (destination slot : Nat) :
    Except String Evidence := do
  insist (event.reason = .debugException)
    "the held dispatcher event is not an unclassified debug exception"
  let dr6 ← registers.low .dr6
  let rip ← registers.low .rip
  let armed ← registers.low (breakpointRegister slot)
  let dr7 ← registers.low .dr7
  let flags ← registers.low .rflags
  insist (dr6 &&& session.ownedCauseMask [slot] = 1 <<< slot ∧ rip = destination ∧
      armed = destination ∧ dr7 &&& breakpointEnableMask slot ≠ 0 ∧ flags &&& (tf ||| rf) = 0)
    ("step-over register evidence does not carry the destination breakpoint, clear TF " ++
      "and clear RF")
  let cr3 ← registers.low .cr3
  return (.stepOver slot cr3, instruction, [destination])

def validateSoftwareStop (instructions : List InstructionGuard) : Except String Evidence := do
  insist (event.reason = .breakpointException ∧ event.vector = 3)
    "the held dispatcher event is not an unclassified breakpoint exception"
  let rip ← registers.low .rip
  let owned := instructions.map fun instruction => Text.hex instruction.address
  let instruction ← (instructions.find? fun instruction =>
      rip = instruction.address || instruction.address + 1 < 2 ^ 64 &&
        instruction.address + 1 = rip).elim
    (.error (s!"vector-3 RIP {Text.hex rip} does not name an owned software breakpoint; " ++
      "expected one of [" ++ ", ".intercalate owned ++ "] or one byte past it")) .ok
  return (.softwareBreakpoint instruction.address, instruction, [instruction.address])

def validateStopRegisters (expected : ExpectedStop) : Except String Evidence := do
  let cs ← registers.low .cs
  insist (cs &&& 3 = event.cpl) "the held event CPL does not match the provider's CS register"
  match expected with
  | .hardware => session.validateHardwareStop event registers none
  | .breakRequest slot => session.validateHardwareStop event registers (some slot)
  | .singleStep instruction rips _ => session.validateSingleStep event registers instruction rips
  | .stepOver instruction destination slot =>
    session.validateStepOver event registers instruction destination slot
  | .software instructions _ => validateSoftwareStop event registers instructions

end LiveControl

variable (world : World) (index : Nat) (observed : Observed)

def readFirst (expected : ExpectedStop) : Live RegisterSnapshot := do
  let session ← get
  let vp ← provider index
  match expected with
  | .hardware | .breakRequest _ =>
    if session.allowTransitionCr3 ∧ session.armMode = some .natural then
      readSnapshot world index none session.allowTransitionCr3
    else readSnapshot world index (some vp.target.expectedCr3) session.allowTransitionCr3
  | .singleStep _ _ cr3 | .software _ cr3 =>
    readSnapshot world index (some cr3) session.allowTransitionCr3
  | .stepOver _ _ _ => readSnapshot world index none true

def reusesMapping (vp : VpControl) (stopCr3 : Nat) : ExpectedStop → Except String Bool
  | .singleStep instruction _ _ =>
    if observed.singleProcessorScope ∧ vp.observedCr3 = some stopCr3 then
      observed.preservesPageTableMapping instruction
    else .ok false
  | _ => .ok false

/-- Publishes the event and reads the stopped registers, twice. -/
def readHeldStop (expected : ExpectedStop) : Live RegisterSnapshot := do
  liftM (insist (observed.late = false)
    "the absolute Secure Kernel pause bound expired while accepting the stop")
  ask world
  let vp ← provider index
  setProvider index { vp with providerPhase := .stopped }
  ask world
  liftM (insist (observed.echoed = observed.event)
    "provider changed the dispatcher event after publication")
  let first ← readFirst world index expected
  let stopCr3 ← liftM (first.low .cr3)
  let vp ← provider index
  let reuse ← liftM (reusesMapping observed vp stopCr3 expected)
  setProvider index { vp with observedCr3 := some stopCr3 }
  let session ← get
  let second ← readSnapshot world index (some stopCr3) session.allowTransitionCr3
  liftM (insist (first = second) "VTL1 registers changed while the dispatcher event was held")
  if ¬ reuse then observed.bindsCr3.elim (pure ()) throw
  if session.allowTransitionCr3 then
    (session.expectedInstructions expected).forM (verifyInstruction world)
  return first

def releaseStepOverSlot (registers : RegisterSnapshot) (slot : Nat) : Live Unit := do
  let baseline ← savedBaseline index "the step-over stop has no saved baseline"
  let dr7 ← liftM (registers.low .dr7)
  let savedDr7 ← liftM (baseline.low .dr7)
  writeOne world index .dr7 dr7 savedDr7
  let held ← liftM (registers.low (breakpointRegister slot))
  let saved ← liftM (baseline.low (breakpointRegister slot))
  writeOne world index (breakpointRegister slot) held saved

def RegisterSnapshot.withRip (rip : Nat) (snapshot : RegisterSnapshot) : RegisterSnapshot :=
  ⟨snapshot.values.map fun value => if value.name = .rip then { value with low := rip } else value⟩

def restartSoftwareStop (instructions : List InstructionGuard) (instruction : InstructionGuard)
    (first : RegisterSnapshot) : Live RegisterSnapshot := do
  observed.restoresSoftwareBreakpoints.elim (pure ()) throw
  instructions.forM (verifyInstruction world)
  let rip ← liftM (first.low .rip)
  writeOne world index .rip rip instruction.address
  modify fun session => { session with softwareRestartRipUnproved := false }
  return first.withRip instruction.address

def stopRegisters (expected : ExpectedStop) (instruction : InstructionGuard)
    (first : RegisterSnapshot) : Live RegisterSnapshot := do
  match expected with
  | .stepOver _ _ slot =>
    releaseStepOverSlot world index first slot
    return first
  | .software instructions _ =>
    restartSoftwareStop world index observed instructions instruction first
  | _ => return first

def recordStop (expected : ExpectedStop) (epoch : StopEpoch) (first : RegisterSnapshot) :
    Live StopRecord := do
  let session ← get
  let (reason, instruction, rips) ←
    liftM (session.validateStopRegisters observed.event first expected)
  let registers ← stopRegisters world index observed expected instruction first
  let vp ← provider index
  let armMode ← session.armMode.elim (throw "the armed session has no arm mode") pure
  return ⟨epoch, vp.target, { observed.event with reason }, registers, instruction, rips, armMode⟩

/-- The stop a wait returns once the dispatcher has seen an event, for a session of one
selected VP. -/
def waitForStop : Live StopRecord := do
  let session ← get
  liftM (insist (session.state = .running ∧ session.expectedStop.isSome)
    "wait_for_stop requires an armed running session")
  let next ← liftM (session.nextEpoch "stopped")
  let expected ← session.expectedStop.elim
    (throw "the armed session has no expected stop") pure
  let active ← (session.providers.findIdx? fun vp => vp.target.vp = observed.event.vp).elim
    (orFault (throw "the dispatcher returned an event for an unbound VP")) pure
  modify fun session => { session with activeProvider := some active }
  let vp ← provider active
  orFault (liftM (session.validateObservation vp observed expected))
  -- An owned vector-3 event stays held until the RIP it restarts at is proved.
  let software := match expected with
    | .software _ _ => true
    | _ => false
  modify fun session => { session with
    softwareRestartRipUnproved := software || session.softwareRestartRipUnproved }
  let stop ← orFault do
    let first ← readHeldStop world active observed expected
    recordStop world active observed expected next.2 first
  modify fun session => { session with
    dispatcherEvent := some observed.event
    expectedStop := none
    state := .stopped stop
    epochSerial := next.1
    publicEpoch := next.2 }
  return stop

end WindbgMcp.SkLive
