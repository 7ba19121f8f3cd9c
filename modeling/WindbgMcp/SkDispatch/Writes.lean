import WindbgMcp.Library.Fallible
import WindbgMcp.Library.Text
import WindbgMcp.Library.UndoLog
import WindbgMcp.SecureKernel.Translation
import WindbgMcp.SkLive.Guards

/-! The guest memory a dispatcher edits while the guest is paused: guarded writes, and
the one-shot software breakpoints.  Both keep what they overwrote until it is restored. -/
namespace WindbgMcp.SkDispatch
open Library SecureKernel SkLive

def maxPendingMemoryWrites : Nat := 64

inductive Failure where
  | said (text : String)
  | read (why : VaFailure)
  | context (text : String) (cause : Failure)
  deriving DecidableEq, Repr

def hex (bytes : List UInt8) : String :=
  String.ofList (bytes.flatMap fun byte =>
    (Text.hexPadded 2 byte.toNat).toList.map Char.toUpper)

/-- A write whose bytes were compared and whose address was resolved. -/
structure PreparedMemoryWrite where
  address : Nat
  gpa : Nat
  original : List UInt8
  replacement : List UInt8
  deriving DecidableEq, Repr

structure AppliedMemoryWrite where
  address : Nat
  gpa : Nat
  original : List UInt8
  replacement : List UInt8
  deriving DecidableEq, Repr

/-! ### The transport -/

/-- How the transport answers the reads of one call: any chunk may fail, and the call
may find its deadline passed. -/
structure Answers where
  maxRead : Nat
  fails : (gpa length : Nat) → Option ReadFailure
  late : Option String

def Answers.source (answers : Answers) (physical : Nat → UInt8) : Source where
  memory := physical
  maxRead := answers.maxRead
  readChunk gpa length :=
    match answers.fails gpa length with
    | some failure => .error failure
    | none => .ok ((List.range length).map fun i => physical (offset gpa i))
  faithful := by
    intro gpa length bytes h
    cases hfails : answers.fails gpa length with
    | some failure =>
      rw [hfails] at h
      cases h
    | none =>
      rw [hfails] at h
      exact (Except.ok.inj h).symm

/-- What becomes of one physical write and its read-back.  The bytes at `lands` arrive,
whatever the transport replies. -/
structure Exchange where
  lands : Nat → Bool
  refusal : Option String
  answers : Answers

structure LiveGuestMemory where
  guardedWriteCapability : Option Nat
  space : AddressSpace
  paged : space.Paged

namespace LiveGuestMemory

variable (memory : LiveGuestMemory) (physical : Nat → UInt8)

def readSpan (answers : Answers) (address size : Nat) : Except Failure (List UInt8) :=
  let result := (Space.mk (answers.source physical) memory.space).readSpan address size
  match answers.late with
  | some why => .error (.said why)
  | none => result.mapError .read

def verifyVirtual (answers : Answers) (address : Nat) (expected : List UInt8)
    (operation : String) : Except Failure Unit := do
  let observed ← (memory.readSpan physical answers address expected.length).mapError
    (.context s!"reading live VTL1 at {Text.hex address}")
  insist (observed = expected)
    (.said (s!"{operation} mismatch at {Text.hex address}: expected {hex expected}, " ++
      s!"observed {hex observed}"))

def prepareGuardedWrite (answers : Answers) (write : GuardedMemoryWrite) :
    Except Failure PreparedMemoryWrite := do
  write.validate.mapError .said
  let maxWrite ← memory.guardedWriteCapability.elim
    (.error (.said "the live-memory transport does not support guarded writes")) .ok
  insist (write.replacement.length ≤ maxWrite)
    (.said (s!"the guarded write is {write.replacement.length} bytes, " ++
      s!"exceeding the transport's {maxWrite}-byte limit"))
  insist (offsetInPage write.address + write.replacement.length ≤ pageSize)
    (.said "a guarded write must remain within one 4 KiB virtual page")
  let gpa ← (memory.space.translate write.address).elim
    (.error (.said s!"nothing in live VTL1 maps {Text.hex write.address}")) .ok
  insist (offsetInPage gpa + write.replacement.length ≤ pageSize)
    (.said "a guarded write must remain within one 4 KiB physical page")
  let observed ← (memory.readSpan physical answers write.address write.expected.length).mapError
    (.context s!"comparing guarded VTL1 bytes at {Text.hex write.address}")
  insist (observed = write.expected)
    (.said (s!"guarded write compare failed at {Text.hex write.address}: " ++
      s!"expected {hex write.expected}, observed {hex observed}"))
  return ⟨write.address, gpa, observed, write.replacement⟩

/-- A physical write at a prepared range and its virtual read-back, with the memory
after them. -/
def rewrite (exchange : Exchange) (write : PreparedMemoryWrite) (bytes : List UInt8)
    (operation : String) : Except Failure Unit × (Nat → UInt8) :=
  let written := UndoLog.put write.gpa bytes exchange.lands physical
  match exchange.refusal with
  | some why => (.error (.said why), written)
  | none => (memory.verifyVirtual written exchange.answers write.address bytes operation, written)

end LiveGuestMemory

/-! ### The dispatcher -/

structure VmwpDispatcherState where
  allowMemoryWrites : Bool
  memory : Option LiveGuestMemory
  vmPaused : Bool
  providerWritesQuiesced : Bool
  vmProcessorCount : Option Nat
  retainedVector : Option Nat
  memoryWrites : List PreparedMemoryWrite
  softwareBreakpoints : List PreparedMemoryWrite

def breakpointVector : Nat := 3

structure Held where
  state : VmwpDispatcherState
  physical : Nat → UInt8

namespace Held

variable (held : Held)

def prepareGuardedWrite (answers : Answers) (write : GuardedMemoryWrite) :
    Except Failure PreparedMemoryWrite := do
  insist held.state.allowMemoryWrites
    (.said "Secure Kernel memory writes are disabled by startup policy")
  insist (held.state.memoryWrites.length < maxPendingMemoryWrites)
    (.said s!"a stopped session may retain at most {maxPendingMemoryWrites} guarded writes")
  let memory ← held.state.memory.elim
    (.error (.said "the live VTL1 memory source is absent")) .ok
  let prepared ← memory.prepareGuardedWrite held.physical answers write
  let ends := prepared.address + prepared.original.length
  insist (∀ earlier ∈ held.state.memoryWrites,
      ¬ (prepared.address < earlier.address + earlier.original.length ∧ earlier.address < ends))
    (.said "guarded writes in one stop may not overlap")
  return prepared

def applyGuardedWrite (exchange : Exchange) (write : PreparedMemoryWrite) :
    Except Failure AppliedMemoryWrite × Held :=
  if ¬ (held.state.vmPaused ∧ held.state.providerWritesQuiesced) then
    (.error (.said "guarded memory mutation requires a proved VM-wide pause"), held)
  else
    -- It owes the range from here on, also where the write is then refused.
    let state := { held.state with memoryWrites := write :: held.state.memoryWrites }
    match held.state.memory with
    | none => (.error (.said "the live VTL1 memory source is absent"), { held with state })
    | some memory =>
      let (outcome, physical) := memory.rewrite held.physical exchange write write.replacement
        "guarded live VTL1 write read-back"
      ((fun () => ⟨write.address, write.gpa, write.original, write.replacement⟩) <$> outcome,
        ⟨state, physical⟩)

structure Turn where
  expired : Bool
  current : Answers
  exchange : Exchange

def expiredText : String :=
  "the absolute Secure Kernel pause bound expired during dispatcher completion"

/-- Writes back what is pending, newest first, one entry a turn. -/
def restoreWritesFrom (turns : Nat → Turn) :
    (turn : Nat) → List PreparedMemoryWrite → Held → Except Failure Unit × Held
  | _, [], held => (.ok (), held)
  | turn, write :: older, held =>
    if (turns turn).expired then (.error (.said expiredText), held)
    else
      match held.state.memory with
      | none =>
        (.error (.said "the live VTL1 memory source is absent during rollback"), held)
      | some memory =>
        match memory.rewrite held.physical (turns turn).exchange write write.original
            "guarded live VTL1 rollback read-back" with
        | (.error why, physical) => (.error why, { held with physical })
        | (.ok (), physical) =>
          restoreWritesFrom turns (turn + 1) older
            ⟨{ held.state with memoryWrites := older }, physical⟩

def restoreMemoryWrites (turns : Nat → Turn) : Except Failure Unit × Held :=
  restoreWritesFrom turns 0 held.state.memoryWrites held

/-! ### Software breakpoints -/

def requireSingleProcessorSoftwareBreakpointScope : Except Failure Unit :=
  match held.state.vmProcessorCount with
  | some 1 => .ok ()
  | some count =>
    .error (.said ("software breakpoints currently require a Hyper-V VM with exactly one " ++
      s!"virtual processor; found {count}"))
  | none =>
    .error (.said ("software breakpoint mutation lacks a processor count cached during " ++
      "target preparation"))

def preparePatches (answers : Nat → Answers) :
    (prepared : List PreparedMemoryWrite) → List InstructionGuard →
      Except Failure (List PreparedMemoryWrite)
  | prepared, [] => .ok prepared
  | prepared, instruction :: instructions => do
    instruction.validate.mapError .said
    let write : GuardedMemoryWrite :=
      ⟨instruction.address, instruction.bytes.take 1, [0xcc]⟩
    write.validate.mapError .said
    let patch ← held.prepareGuardedWrite (answers prepared.length) write
    insist (∀ earlier ∈ prepared, earlier.address ≠ patch.address)
      (.said "software breakpoint addresses must be distinct")
    preparePatches answers (prepared ++ [patch]) instructions

def armPatches (exchanges : Nat → Exchange) :
    (turn : Nat) → List PreparedMemoryWrite → Held → Except Failure Unit × Held
  | _, [], held => (.ok (), held)
  | turn, patch :: patches, held =>
    let state :=
      { held.state with softwareBreakpoints := patch :: held.state.softwareBreakpoints }
    match held.state.memory with
    | none => (.error (.said "the live VTL1 memory source is absent"), { held with state })
    | some memory =>
      match memory.rewrite held.physical (exchanges turn) patch patch.replacement
          "software breakpoint patch read-back" with
      | (.error why, physical) => (.error why, ⟨state, physical⟩)
      | (.ok (), physical) => armPatches exchanges (turn + 1) patches ⟨state, physical⟩

def checkArming (instructions : List InstructionGuard) : Except Failure Unit := do
  insist held.state.allowMemoryWrites
    (.said "Secure Kernel software breakpoints are disabled by startup policy")
  insist (held.state.vmPaused ∧ held.state.providerWritesQuiesced)
    (.said "software breakpoint mutation requires a proved VM-wide pause")
  held.requireSingleProcessorSoftwareBreakpointScope
  insist (held.state.memoryWrites = [])
    (.said "generic guarded writes must be rolled back before software breakpoints run")
  insist (held.state.softwareBreakpoints = [])
    (.said "software breakpoints are already armed")
  insist (instructions ≠ [] ∧ instructions.length ≤ maxSoftwareBreakpoints)
    (.said ("software breakpoint arming requires " ++
      s!"1..={maxSoftwareBreakpoints} guarded instructions"))

def armSoftwareBreakpoints (answers : Nat → Answers) (exchanges : Nat → Exchange)
    (instructions : List InstructionGuard) : Except Failure Unit × Held :=
  match held.checkArming instructions >>= fun () => held.preparePatches answers [] instructions with
  | .error why => (.error why, held)
  | .ok prepared => armPatches exchanges 0 prepared held

/-- Writes back the patches, newest first.  A patch whose original is there already is
restored; one that is neither patch nor original is not. -/
def restorePatchesFrom (turns : Nat → Turn) :
    (turn : Nat) → List PreparedMemoryWrite → Held → Except Failure Unit × Held
  | _, [], held => (.ok (), held)
  | turn, patch :: older, held =>
    let popped : VmwpDispatcherState := { held.state with softwareBreakpoints := older }
    if (turns turn).expired then (.error (.said expiredText), held)
    else
      match held.state.memory with
      | none =>
        (.error (.said "the live VTL1 memory source is absent during breakpoint restoration"),
          held)
      | some memory =>
        match memory.readSpan held.physical (turns turn).current patch.address
            patch.original.length with
        | .error why => (.error why, held)
        | .ok current =>
          if current = patch.original then
            restorePatchesFrom turns (turn + 1) older { held with state := popped }
          else if current ≠ patch.replacement then
            (.error (.said (s!"owned software breakpoint at {Text.hex patch.address} " ++
              "contains neither its patch nor original")), held)
          else
            match memory.rewrite held.physical (turns turn).exchange patch patch.original
                "software breakpoint restoration read-back" with
            | (.error why, physical) => (.error why, { held with physical })
            | (.ok (), physical) =>
              restorePatchesFrom turns (turn + 1) older ⟨popped, physical⟩

def soleVpEventBarrier : Bool :=
  held.state.vmProcessorCount = some 1 && held.state.providerWritesQuiesced &&
    held.state.retainedVector = some breakpointVector

def restoreSoftwareBreakpoints (turns : Nat → Turn) : Except Failure Unit × Held :=
  if ¬ (held.state.vmPaused ∧ held.state.providerWritesQuiesced) ∧ ¬ held.soleVpEventBarrier then
    (.error (.said ("software breakpoint restoration requires a proved VM-wide pause or " ++
      "sole-VP event")), held)
  else restorePatchesFrom turns 0 held.state.softwareBreakpoints held

end Held

end WindbgMcp.SkDispatch
