import Mathlib.Algebra.Order.Ring.Nat
import Mathlib.Data.List.Dedup
import Mathlib.Data.List.Sort
import WindbgMcp.Driver.Listing

/-! Decoded instructions, and what a walk over them believes about the registers.
Machine words are numbers: `u64` a natural, `i64` an integer, both wrapped where the
source wraps them. -/
namespace WindbgMcp.Ioctl
open Driver (Flow)

/-- A register operand: its spelling, the register it is part of, its width in bytes. -/
structure Register where
  name : String
  full : String
  width : Nat
  deriving DecidableEq, Repr

structure MemoryOperand where
  base : Option Register := none
  index : Option Register := none
  scale : Nat := 1
  displacement : Int := 0
  /-- The address itself, where the encoding fixes it. -/
  address : Option Nat := none
  size : Option Nat := none
  deriving DecidableEq, Repr

inductive Operand
  | register (register : Register)
  | immediate (value : Nat)
  | memory (memory : MemoryOperand)
  | other (text : String)
  deriving DecidableEq, Repr

inductive Effect
  | move | moveSigned | loadAddress | add | subtract | shiftLeft | shiftRight
  | bitAnd | bitOr | bitXor | compare | test | push | pop | other
  deriving DecidableEq, Repr

inductive Condition
  | equal | notEqual
  | unsignedAbove | unsignedAboveOrEqual | unsignedBelow | unsignedBelowOrEqual
  | signedGreater | signedGreaterOrEqual | signedLess | signedLessOrEqual
  | negative | notNegative | overflow | notOverflow | parity | notParity
  deriving DecidableEq, Repr

/-- One decoded instruction, with what the decoder says it reads and writes. -/
structure Instruction where
  address : Nat
  mnemonic : String := ""
  operands : List Operand := []
  flow : Flow := .fallthrough
  effect : Effect := .other
  condition : Option Condition := none
  writesFlags : Bool := false
  writes : List Register := []
  reads : List Register := []
  deriving DecidableEq, Repr

def isCall : Flow → Bool
  | .call _ => true
  | _ => false

def Instruction.writesRegister (instruction : Instruction) (full : String) : Bool :=
  instruction.writes.any fun register => register.full == full

def Instruction.operand (instruction : Instruction) (i : Nat) : Option Operand :=
  instruction.operands[i]?

def registerFull : Operand → Option String
  | .register register => some register.full
  | _ => none

def immediateOf : Operand → Option Nat
  | .immediate value => some value
  | _ => none

/-- A `u64` read as an `i64`. -/
def asI64 (value : Nat) : Int :=
  if value % 2 ^ 64 < 2 ^ 63 then (value % 2 ^ 64 : Nat) else (value % 2 ^ 64 : Nat) - 2 ^ 64

/-- An `i64` read as a `u64`. -/
def asU64 (value : Int) : Nat := (value % 2 ^ 64).toNat

/-- Where the fields of a request are, and the calling convention around them. -/
structure Layout where
  currentStackLocation : Int
  controlCode : Int
  inputLength : Int
  outputLength : Int
  returnRegister : String
  pointer : Nat
  literalPool : Bool
  statusField : Int
  volatile : List String
  irpRegister : Option String
  staticOutcomeHidesFlagWrite : Bool
  deriving DecidableEq, Repr

namespace Layout

def x64 : Layout where
  currentStackLocation := 0xb8
  controlCode := 0x18
  inputLength := 0x10
  outputLength := 0x08
  returnRegister := "rax"
  pointer := 8
  literalPool := false
  statusField := 0x30
  volatile := ["rax", "rcx", "rdx", "r8", "r9", "r10", "r11"]
  irpRegister := some "rdx"
  staticOutcomeHidesFlagWrite := true

def x86 : Layout where
  currentStackLocation := 0x60
  controlCode := 0x0c
  inputLength := 0x08
  outputLength := 0x04
  returnRegister := "eax"
  pointer := 4
  literalPool := false
  statusField := 0x18
  volatile := ["eax", "ecx", "edx"]
  irpRegister := none
  staticOutcomeHidesFlagWrite := true

def arm64 : Layout where
  currentStackLocation := 0xb8
  controlCode := 0x18
  inputLength := 0x10
  outputLength := 0x08
  returnRegister := "x0"
  pointer := 8
  literalPool := true
  statusField := 0x30
  volatile := ["x0", "x1", "x2", "x3", "x4", "x5", "x6", "x7", "x8", "x9", "x10", "x11", "x12",
    "x13", "x14", "x15", "x16", "x17", "lr"]
  irpRegister := some "x1"
  staticOutcomeHidesFlagWrite := false

end Layout

/-- What a register is known to hold. -/
inductive Value
  | irp
  | stackLocation
  /-- `(code - offset) >> shift`. -/
  | code (offset : Int) (shift : Nat) (proved : Bool)
  | inputLength
  | outputLength
  | address (address : Nat)
  | literal (value : Nat)
  deriving DecidableEq, Repr

def fieldWidth : Nat := 4

def Value.isCode : Value → Bool
  | .code .. => true
  | _ => false

def Value.carriedBy (layout : Layout) : Value → Nat
  | .irp | .stackLocation | .address _ => layout.pointer
  | .code .. | .inputLength | .outputLength | .literal _ => fieldWidth

structure Equality where
  carry : Bool
  overflow : Bool
  deriving DecidableEq, Repr

/-- What a `cmp` or a `sub` leaves. -/
def Equality.subtractive : Equality := ⟨false, false⟩

/-- What an `add` of `amount` leaves, at a destination `width` bytes wide. -/
def Equality.afterAdd (amount width : Nat) : Equality :=
  if amount = 0 then subtractive
  else ⟨true, amount == 2 ^ (width * 8 - 1)⟩

/-- The state one compare leaves for the branch that reads it. -/
structure Compared where
  equality : Equality
  /-- The control code the compare is about, when it is about one. -/
  code : Option Nat
  proved : Bool
  /-- The register compared and what it held. -/
  index : Option (String × Int × Nat)
  bound : Option Nat
  /-- Whether the reading reached the branch through a conditional compare. -/
  chained : Bool
  site : Nat
  deriving DecidableEq, Repr

structure Bound where
  register : String
  offset : Int
  shift : Nat
  limit : Nat
  /-- Where an index past the limit goes. -/
  default : Option Nat
  proved : Bool
  deriving DecidableEq, Repr

structure Status where
  returned : Bool := false
  irp : Bool := false
  deriving DecidableEq, Repr

structure Facts where
  registers : List (String × Value) := []
  bound : Option Bound := none
  pending : List Compared := []
  lost : Option Nat := none
  status : Status := {}
  deriving DecidableEq, Repr

namespace Facts

def get (facts : Facts) (register : String) : Option Value := facts.registers.lookup register

def remove (facts : Facts) (register : String) : Facts :=
  { facts with registers := facts.registers.filter fun entry => entry.1 != register }

def set (facts : Facts) (register : String) : Option Value → Facts
  | some value => { facts with registers := (register, value) :: (facts.remove register).registers }
  | none => facts.remove register

def dropBoundOn (facts : Facts) (register : String) : Facts :=
  if facts.bound.any fun bound => bound.register == register then { facts with bound := none }
  else facts

def pendingBefore (first second : Compared) : Bool :=
  first.site < second.site || first.site == second.site &&
    match first.code, second.code with
    | none, _ => true
    | some _, none => false
    | some code, some other => code ≤ other

/-- The facts two paths into a block agree on, and the compares either of them made; and
whether that took anything away from, or added anything to, the first. -/
def join (facts other : Facts) : Facts × Bool :=
  let registers := facts.registers.filter fun entry => other.get entry.1 == some entry.2
  let pending := other.pending.foldl
    (fun pending was => if was ∈ pending then pending else pending ++ [was]) facts.pending
  let lost := match facts.lost, other.lost with
    | some ours, some theirs => some (min ours theirs)
    | ours, theirs => ours <|> theirs
  let status := { returned := facts.status.returned && other.status.returned
                  irp := facts.status.irp && other.status.irp }
  ({ registers
     bound := if facts.bound = other.bound then facts.bound else none
     pending := pending.insertionSort fun first second => pendingBefore first second = true
     lost
     status },
    registers.length != facts.registers.length ||
      facts.bound != other.bound && facts.bound.isSome ||
      pending.length != facts.pending.length || lost != facts.lost || status != facts.status)

end Facts

end WindbgMcp.Ioctl
