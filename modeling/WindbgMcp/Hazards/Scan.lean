import WindbgMcp.Ioctl.Facts

/-! The scan of an image's code for calls to sensitive imports (`hazards.rs`).  An import is
reached through its slot in the import address table: through a memory operand that names
the slot, or through a register the code was watched loading from it. -/
namespace WindbgMcp.Hazards
open Driver (Flow)
open Ioctl (Instruction Register MemoryOperand Operand Effect asU64)

inductive SinkKind
  | bufferCopy | userPointerGuard | allocation | arithmeticGuard
  | physicalMemory | processAccess | persistence | accessCheck
  deriving DecidableEq, Repr

/-- The curated list, matched exactly. -/
def sinkList : List (String × SinkKind) :=
  [("memcpy", .bufferCopy),
    ("memmove", .bufferCopy),
    ("RtlCopyMemory", .bufferCopy),
    ("RtlMoveMemory", .bufferCopy),
    ("RtlCopyMemoryNonTemporal", .bufferCopy),
    ("MmCopyMemory", .bufferCopy),
    ("MmCopyVirtualMemory", .bufferCopy),
    ("ProbeForRead", .userPointerGuard),
    ("ProbeForWrite", .userPointerGuard),
    ("MmProbeAndLockPages", .userPointerGuard),
    ("ExAllocatePool", .allocation),
    ("ExAllocatePool2", .allocation),
    ("ExAllocatePool3", .allocation),
    ("ExAllocatePoolWithTag", .allocation),
    ("ExAllocatePoolWithQuotaTag", .allocation),
    ("MmAllocateContiguousMemory", .allocation),
    ("MmAllocateNonCachedMemory", .allocation),
    ("RtlULongAdd", .arithmeticGuard),
    ("RtlULongMult", .arithmeticGuard),
    ("RtlULongLongMult", .arithmeticGuard),
    ("RtlSizeTAdd", .arithmeticGuard),
    ("RtlSizeTMult", .arithmeticGuard),
    ("MmMapIoSpace", .physicalMemory),
    ("MmMapIoSpaceEx", .physicalMemory),
    ("MmGetPhysicalAddress", .physicalMemory),
    ("MmMapLockedPages", .physicalMemory),
    ("MmMapLockedPagesSpecifyCache", .physicalMemory),
    ("ZwMapViewOfSection", .physicalMemory),
    ("ZwOpenSection", .physicalMemory),
    ("PsLookupProcessByProcessId", .processAccess),
    ("ObReferenceObjectByHandle", .processAccess),
    ("ObOpenObjectByPointer", .processAccess),
    ("ZwOpenProcess", .processAccess),
    ("ZwOpenProcessToken", .processAccess),
    ("ZwDuplicateObject", .processAccess),
    ("KeStackAttachProcess", .processAccess),
    ("PsSetCreateProcessNotifyRoutine", .processAccess),
    ("ZwCreateFile", .persistence),
    ("ZwWriteFile", .persistence),
    ("ZwDeleteFile", .persistence),
    ("ZwSetValueKey", .persistence),
    ("ZwCreateKey", .persistence),
    ("IoCreateSymbolicLink", .persistence),
    ("IoCreateSymbolicLink2", .persistence),
    ("SeAccessCheck", .accessCheck),
    ("SePrivilegeCheck", .accessCheck),
    ("SeSinglePrivilegeCheck", .accessCheck),
    ("ZwQueryInformationToken", .accessCheck)]

def sinkKind (name : String) : Option SinkKind :=
  (sinkList.find? fun sink => sink.1 = name).map (·.2)

def maxCallSitesPerSink : Nat := 256
def maxCallSitesTotal : Nat := 4096
def maxSlotsPerSink : Nat := 16

/-! ### Imports -/

inductive ImportName
  | named (name : String)
  | ordinal (number : Nat)
  deriving DecidableEq, Repr

structure Import where
  library : String
  name : ImportName
  slot : Nat
  deriving DecidableEq, Repr

/-- What the image reader gives of the imports beside their list: how it writes a name, as it
is, and an ordinal, which is never a name of the list; and the imports by slot. -/
structure ImportTable where
  text : ImportName → String
  importsBySlot : List Import → Nat → Option Import
  text_named : ∀ name, text (.named name) = name
  ordinal_unlisted : ∀ number, sinkKind (text (.ordinal number)) = none
  slot_iff : ∀ imports : List Import, (imports.map (·.slot)).Nodup → ∀ slot entry,
    importsBySlot imports slot = some entry ↔ entry ∈ imports ∧ entry.slot = slot

structure Sink where
  library : String
  name : String
  kind : SinkKind
  slots : List Nat
  slotCount : Nat
  callSites : List Nat
  callSiteCount : Nat
  deriving DecidableEq, Repr

namespace Sink

def key (sink : Sink) : String × String := (sink.library, sink.name)

def addSlot (sink : Sink) (slot : Nat) : Sink :=
  { sink with
    slotCount := sink.slotCount + 1
    slots := if sink.slots.length < maxSlotsPerSink then sink.slots ++ [slot] else sink.slots }

def addSite (sink : Sink) (address : Nat) (listed : Bool) : Sink :=
  { sink with
    callSiteCount := sink.callSiteCount + 1
    callSites := if listed then sink.callSites ++ [address] else sink.callSites }

end Sink

def fileSink (entry : Import) (name : String) (kind : SinkKind) : List Sink → List Sink
  | [] => [(Sink.mk entry.library name kind [] 0 [] 0).addSlot entry.slot]
  | sink :: sinks =>
    if sink.key = (entry.library, name) then sink.addSlot entry.slot :: sinks
    else if entry.library < sink.library ∨ entry.library = sink.library ∧ name < sink.name then
      (Sink.mk entry.library name kind [] 0 [] 0).addSlot entry.slot :: sink :: sinks
    else sink :: fileSink entry name kind sinks

structure Sorted where
  sinks : List Sink := []
  otherImports : Nat := 0
  ordinalImports : Nat := 0
  deriving DecidableEq, Repr

def sortImport (table : ImportTable) (sorted : Sorted) (entry : Import) : Sorted :=
  match entry.name, sinkKind (table.text entry.name) with
  | .named name, some kind => { sorted with sinks := fileSink entry name kind sorted.sinks }
  | .named _, none => { sorted with otherImports := sorted.otherImports + 1 }
  | .ordinal _, _ => { sorted with ordinalImports := sorted.ordinalImports + 1 }

/-! ### Slots watched into registers -/

def indirect (flow : Flow) : Bool := flow = .call none ∨ flow = .jmp none

def resolvedAddress : Operand → Option Nat
  | .memory memory => memory.address
  | _ => none

def calledSlot (instruction : Instruction) : Option Nat :=
  if indirect instruction.flow then instruction.operands.findSome? resolvedAddress else none

inductive Held
  | address (address : Nat)
  | slot (slot : Nat)
  deriving DecidableEq, Repr

/-- The registers that hold an address the code computed, and those that hold what was
loaded through a slot. -/
structure Formed where
  address : String → Option Nat := fun _ => none
  loadedFrom : String → Option Nat := fun _ => none

namespace Formed

variable (formed : Formed)

def slotOf (instruction : Instruction) : Option Nat :=
  if indirect instruction.flow then
    match instruction.operand 0 with
    | some (.register register) => formed.loadedFrom register.full
    | _ => none
  else none

def forms (instruction : Instruction) : Option (String × Held) :=
  match instruction.operand 0, instruction.operand 1 with
  | some (.register destination), some (.memory memory) =>
    -- A store names its source first, and does not write it.
    if ¬ instruction.writesRegister destination.full then none
    else
      match instruction.effect with
      | .loadAddress => memory.address.map fun address => (destination.full, .address address)
      | .move =>
        if memory.index.isNone then do
          let base ← memory.base
          let page ← formed.address base.full
          some (destination.full, .slot (asU64 (page + memory.displacement)))
        else none
      | _ => none
  | _, _ => none

/-- Forgets what the instruction writes, and then keeps what it formed out of what was
known before. -/
def apply (instruction : Instruction) : Formed :=
  let known : Formed :=
    ⟨fun name => if instruction.writesRegister name then none else formed.address name,
      fun name => if instruction.writesRegister name then none else formed.loadedFrom name⟩
  match formed.forms instruction with
  | some (register, .address address) =>
    { known with
      address := fun name => if name = register then some address else known.address name }
  | some (register, .slot slot) =>
    { known with
      loadedFrom := fun name => if name = register then some slot else known.loadedFrom name }
  | none => known

end Formed

/-! ### The scan -/

/-- One step of the walk over the code: an instruction, or a break in what was decoded. -/
inductive Step
  | breaks
  | at (instruction : Instruction)
  deriving DecidableEq, Repr

structure Scanning where
  formed : Formed
  sinks : List Sink
  listedCallSites : Nat

def countSite (table : ImportTable) (imports : List Import) (state : Scanning)
    (address slot : Nat) : Scanning :=
  match table.importsBySlot imports slot with
  | none => state
  | some entry =>
    let key := (entry.library, table.text entry.name)
    match state.sinks.find? fun sink => sink.key = key with
    | none => state
    | some sink =>
      let listed :=
        sink.callSites.length < maxCallSitesPerSink && state.listedCallSites < maxCallSitesTotal
      { state with
        sinks := state.sinks.map fun other =>
          if other.key = key then other.addSite address listed else other
        listedCallSites := state.listedCallSites + listed.toNat }

def scanStep (table : ImportTable) (imports : List Import) (state : Scanning) : Step → Scanning
  | .breaks => { state with formed := {} }
  | .at instruction =>
    let slot := (calledSlot instruction).or (state.formed.slotOf instruction)
    let counted := countSite table imports state instruction.address (slot.getD 0)
    { counted with
      formed :=
        if instruction.flow = .fallthrough then state.formed.apply instruction else {} }

structure Scan where
  sinks : List Sink
  otherImports : Nat
  ordinalImports : Nat

def scan (table : ImportTable) (imports : List Import) (steps : List Step) : Scan :=
  let sorted := imports.foldl (sortImport table) {}
  let scanned := steps.foldl (scanStep table imports) ⟨{}, sorted.sinks, 0⟩
  ⟨scanned.sinks, sorted.otherImports, sorted.ordinalImports⟩

end WindbgMcp.Hazards
