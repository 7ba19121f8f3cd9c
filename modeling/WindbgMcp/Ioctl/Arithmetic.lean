import Mathlib.Data.BitVec
import WindbgMcp.Ioctl.Joining

/-! The dispatch arithmetic of a block over 32-bit registers: what the machine computes, and what
the walk keeps of it.  A register derived from the control code holds the code less an offset; the
walk carries that offset as an `i64`, reduced by `sub` and `add` and not by `lea`. -/
namespace WindbgMcp.Ioctl

inductive Amount
  | immediate (value : Nat)
  | register (full : String)
  deriving DecidableEq, Repr

/-- An instruction over 32-bit registers, each named by the register it is part of. -/
inductive Line
  | moveImmediate (destination : String) (value : BitVec 32)
  | move (destination source : String)
  | lea (destination base : String) (displacement : Int)
  | subtract (destination : String) (amount : Amount)
  | add (destination : String) (amount : Amount)
  | compare (left : String) (amount : Amount)
  deriving DecidableEq, Repr

section Decoding
variable (spelled : String → String)

def slice (full : String) : Register := ⟨spelled full, full, fieldWidth⟩

def Amount.operand : Amount → Operand
  | .immediate value => .immediate value
  | .register full => .register (slice spelled full)

def Amount.names : Amount → List String
  | .immediate _ => []
  | .register full => [full]

namespace Line

def effect : Line → Effect
  | .moveImmediate .. | .move .. => .move
  | .lea .. => .loadAddress
  | .subtract .. => .subtract
  | .add .. => .add
  | .compare .. => .compare

def writes : Line → List String
  | .moveImmediate destination _ | .move destination _ | .lea destination _ _
  | .subtract destination _ | .add destination _ => [destination]
  | .compare .. => []

def reads : Line → List String
  | .moveImmediate .. => []
  | .move _ source => [source]
  | .lea _ base _ => [base]
  | .subtract destination amount | .add destination amount => destination :: amount.names
  | .compare left amount => left :: amount.names

def writesFlags : Line → Bool
  | .moveImmediate .. | .move .. | .lea .. => false
  | .subtract .. | .add .. | .compare .. => true

def Spells (operands : List Operand) : Line → Prop
  | .moveImmediate destination value =>
    operands = [.register (slice spelled destination), .immediate value.toNat]
  | .move destination source =>
    operands = [.register (slice spelled destination), .register (slice spelled source)]
  | .lea destination base displacement =>
    ∃ memory : MemoryOperand,
      operands = [.register (slice spelled destination), .memory memory] ∧
        memory.base.map Register.full = some base ∧ memory.index = none ∧
        memory.displacement = displacement ∧ memory.address = none
  | .subtract destination amount | .add destination amount | .compare destination amount =>
    operands = [.register (slice spelled destination), amount.operand spelled]

end Line

structure Decoded where
  line : Line
  instruction : Instruction
  operands : line.Spells spelled instruction.operands
  effect : instruction.effect = line.effect
  writes : instruction.writes.map Register.full = line.writes
  reads : ∀ register ∈ instruction.reads, register.full ∈ line.reads
  flags : instruction.writesFlags = line.writesFlags
  mnemonic : instruction.mnemonic ≠ "ccmp" ∧ instruction.mnemonic ≠ "ccmn"
  flow : isCall instruction.flow = false

def Line.mnemonic : Line → String
  | .moveImmediate .. | .move .. => "mov"
  | .lea .. => "lea"
  | .subtract .. => "sub"
  | .add .. => "add"
  | .compare .. => "cmp"

def Line.operands : Line → List Operand
  | .moveImmediate destination value =>
    [.register (slice spelled destination), .immediate value.toNat]
  | .move destination source =>
    [.register (slice spelled destination), .register (slice spelled source)]
  | .lea destination base displacement =>
    [.register (slice spelled destination),
      .memory { base := some (slice spelled base), displacement }]
  | .subtract destination amount | .add destination amount | .compare destination amount =>
    [.register (slice spelled destination), amount.operand spelled]

theorem Line.mnemonic_ne (line : Line) : line.mnemonic ≠ "ccmp" ∧ line.mnemonic ≠ "ccmn" := by
  cases line <;> simp [Line.mnemonic]

def Decoded.of (address : Nat) (line : Line) : Decoded spelled where
  line
  instruction :=
    { address
      mnemonic := line.mnemonic
      operands := line.operands spelled
      effect := line.effect
      writesFlags := line.writesFlags
      writes := line.writes.map (slice spelled)
      reads := line.reads.map (slice spelled) }
  operands := by
    cases line with
    | lea => exact ⟨_, rfl, rfl, rfl, rfl, rfl⟩
    | moveImmediate | move | subtract | add | compare => rfl
  effect := rfl
  writes := by
    rw [List.map_map]
    exact List.map_id _
  reads := by
    intro register hregister
    obtain ⟨full, hfull, rfl⟩ := List.mem_map.mp hregister
    exact hfull
  flags := rfl
  mnemonic := line.mnemonic_ne
  flow := rfl

end Decoding

structure Machine where
  registers : String → BitVec 32
  zero : Bool

def Amount.bits (machine : Machine) : Amount → BitVec 32
  | .immediate value => BitVec.ofNat 32 value
  | .register full => machine.registers full

namespace Machine

def put (machine : Machine) (full : String) (value : BitVec 32) : Machine :=
  { machine with registers := Function.update machine.registers full value }

def step (machine : Machine) : Line → Machine
  | .moveImmediate destination value => machine.put destination value
  | .move destination source => machine.put destination (machine.registers source)
  | .lea destination base displacement =>
    machine.put destination (machine.registers base + BitVec.ofInt 32 displacement)
  | .subtract destination amount =>
    let result := machine.registers destination - amount.bits machine
    { machine.put destination result with zero := result == 0 }
  | .add destination amount =>
    let result := machine.registers destination + amount.bits machine
    { machine.put destination result with zero := result == 0 }
  | .compare left amount =>
    { machine with zero := machine.registers left - amount.bits machine == 0 }

def run (machine : Machine) (lines : List Line) : Machine := lines.foldl step machine

end Machine

/-- What a register is by where its value came from: the control code less an offset, and whether
every offset on the way fitted an `i64`; a literal; or anything else. -/
inductive Holding
  | code (offset : Int) (followed : Bool)
  | literal (value : Nat)
  | other
  deriving DecidableEq, Repr

/-- The code a zero flag asks about, as the offset and the compared value make it up. -/
structure Question where
  value : Int
  followed : Bool
  site : Nat
  deriving DecidableEq, Repr

/-- What the registers are, and what the live zero flag asks about the control code. -/
structure Ledger where
  held : String → Holding
  question : Option Question := none

namespace Ledger

def amount (ledger : Ledger) : Amount → Option Nat
  | .immediate value => some value
  | .register full =>
    match ledger.held full with
    | .literal value => some value
    | _ => none

def put (ledger : Ledger) (full : String) (holding : Holding) : Ledger :=
  { ledger with held := Function.update ledger.held full holding }

def fits (offset : Int) : Bool := -2 ^ 63 ≤ offset ∧ offset < 2 ^ 63

def move (ledger : Ledger) (site : Nat) (destination : String) (amount : Amount)
    (stepped : Int → Nat → Int) : Ledger :=
  match ledger.held destination, ledger.amount amount with
  | .code offset followed, some amount =>
    let offset := stepped offset amount % 2 ^ 32
    { ledger.put destination (.code offset followed) with
      question := some ⟨offset, followed, site⟩ }
  | _, _ => { ledger.put destination .other with question := none }

def step (ledger : Ledger) (site : Nat) : Line → Ledger
  | .moveImmediate destination value => ledger.put destination (.literal value.toNat)
  | .move destination source => ledger.put destination (ledger.held source)
  | .lea destination base displacement =>
    ledger.put destination
      (match ledger.held base with
      | .code offset followed =>
        .code (offset - displacement) (followed && fits (offset - displacement))
      | _ => .other)
  | .subtract destination amount =>
    ledger.move site destination amount fun offset amount => offset + amount
  | .add destination amount =>
    ledger.move site destination amount fun offset amount => offset - amount
  | .compare left amount =>
    { ledger with
      question :=
        match ledger.held left, ledger.amount amount with
        | .code offset followed, some amount => some ⟨amount + offset, followed, site⟩
        | _, _ => none }

def Plain (ledger : Ledger) : Line → Prop
  | .subtract _ amount | .add _ amount | .compare _ amount => (ledger.amount amount).isSome
  | _ => True

def entered (facts : Facts) : Ledger where
  held full :=
    match facts.get full with
    | some (.code offset 0 _) => .code offset true
    | some (.literal value) => .literal value
    | _ => .other

end Ledger

section Block
variable {spelled : String → String}

def Ledger.run (ledger : Ledger) (body : List (Decoded spelled)) : Ledger :=
  body.foldl (fun ledger decoded => ledger.step decoded.instruction.address decoded.line) ledger

def Ledger.PlainRun (ledger : Ledger) : List (Decoded spelled) → Prop
  | [] => True
  | decoded :: rest =>
    ledger.Plain decoded.line ∧
      (ledger.step decoded.instruction.address decoded.line).PlainRun rest

end Block

def Holding.Is (code value : BitVec 32) : Holding → Prop
  | .code offset _ => value = code - BitVec.ofInt 32 offset
  | .literal held => value = BitVec.ofNat 32 held
  | .other => True

/-- The registers and the flag of the machine are what the ledger says, for one control code. -/
structure Ledger.Means (ledger : Ledger) (machine : Machine) (code : BitVec 32) : Prop where
  registers : ∀ full, (ledger.held full).Is code (machine.registers full)
  flag : ∀ question, ledger.question = some question →
    (machine.zero = true ↔ code = BitVec.ofInt 32 question.value)

section Wrapping

theorem ofInt_sub (x y : Int) :
    BitVec.ofInt 32 (x - y) = BitVec.ofInt 32 x - BitVec.ofInt 32 y := by
  rw [Int.sub_eq_add_neg, BitVec.ofInt_add, BitVec.ofInt_neg, sub_eq_add_neg]

theorem ofInt_wrap (x : Int) : BitVec.ofInt 32 (x % 2 ^ 32) = BitVec.ofInt 32 x := by
  apply BitVec.eq_of_toNat_eq
  simp [BitVec.toNat_ofInt]

theorem sub_sub_eq_zero_iff (code held amount : BitVec 32) :
    code - held - amount = 0 ↔ code = amount + held := by
  rw [sub_sub, sub_eq_zero, add_comm]

end Wrapping

namespace Ledger
variable {ledger : Ledger} {machine : Machine} {code : BitVec 32}

theorem Means.bits (h : ledger.Means machine code) {amount : Amount} {value : Nat}
    (hamount : ledger.amount amount = some value) :
    amount.bits machine = BitVec.ofNat 32 value := by
  cases amount with
  | immediate written => rw [← Option.some.inj hamount, Amount.bits]
  | register full =>
    have hheld := h.registers full
    unfold Ledger.amount at hamount
    dsimp only at hamount
    split at hamount
    · next literal hliteral =>
      obtain rfl := Option.some.inj hamount
      rw [hliteral] at hheld
      exact hheld
    · cases hamount

theorem Means.put (h : ledger.Means machine code) {full : String} {holding : Holding}
    {value : BitVec 32} (hvalue : holding.Is code value) :
    (ledger.put full holding).Means (machine.put full value) code where
  registers other := by
    unfold Ledger.put Machine.put
    by_cases hother : other = full
    · subst hother
      simpa using hvalue
    · simpa [hother] using h.registers other
  flag := h.flag

/-- What a step leaves in the register is the code less the new offset, and the flag asks whether
that is nothing. -/
theorem Means.move (h : ledger.Means machine code) (site : Nat) {destination : String}
    {amount : Amount} {stepped : Int → Nat → Int} {result : BitVec 32}
    (hamount : (ledger.amount amount).isSome)
    (hstepped : ∀ offset value, amount.bits machine = BitVec.ofNat 32 value →
      machine.registers destination = code - BitVec.ofInt 32 offset →
      result = code - BitVec.ofInt 32 (stepped offset value)) :
    (ledger.move site destination amount stepped).Means
      { machine.put destination result with zero := result == 0 } code := by
  obtain ⟨value, hvalue⟩ := Option.isSome_iff_exists.mp hamount
  have hheld := h.registers destination
  unfold Ledger.move
  rw [hvalue]
  cases hholding : ledger.held destination with
  | code offset followed =>
    rw [hholding] at hheld
    have hresult : result = code - BitVec.ofInt 32 (stepped offset value % 2 ^ 32) := by
      rw [ofInt_wrap]
      exact hstepped offset value (h.bits hvalue) hheld
    have his : (Holding.code (stepped offset value % 2 ^ 32) followed).Is code result := hresult
    refine ⟨(h.put his).registers, ?_⟩
    rintro _ ⟨⟩
    dsimp only
    rw [beq_iff_eq, hresult]
    exact sub_eq_zero
  | literal | other =>
    have his : Holding.other.Is code result := trivial
    exact ⟨(h.put his).registers, nofun⟩

theorem Means.step (h : ledger.Means machine code) (site : Nat) {line : Line}
    (hplain : ledger.Plain line) : (ledger.step site line).Means (machine.step line) code := by
  cases line with
  | moveImmediate destination value =>
    apply h.put
    exact (BitVec.ofNat_toNat 32 value ▸ BitVec.setWidth_eq value).symm
  | move destination source => exact h.put (h.registers source)
  | lea destination base displacement =>
    apply h.put
    have hheld := h.registers base
    cases hholding : ledger.held base with
    | code offset followed =>
      rw [hholding] at hheld
      change machine.registers base + BitVec.ofInt 32 displacement =
        code - BitVec.ofInt 32 (offset - displacement)
      rw [hheld, ofInt_sub]
      ring
    | literal | other => trivial
  | subtract destination amount =>
    apply h.move site hplain
    intro offset value hbits hheld
    rw [hbits, hheld, BitVec.ofInt_add, BitVec.ofInt_natCast]
    ring
  | add destination amount =>
    apply h.move site hplain
    intro offset value hbits hheld
    rw [hbits, hheld, ofInt_sub, BitVec.ofInt_natCast]
    ring
  | compare left amount =>
    refine ⟨h.registers, ?_⟩
    intro question hquestion
    obtain ⟨value, hvalue⟩ := Option.isSome_iff_exists.mp hplain
    have hheld := h.registers left
    dsimp only [Ledger.step] at hquestion
    rw [hvalue] at hquestion
    cases hholding : ledger.held left with
    | code offset followed =>
      rw [hholding] at hheld hquestion
      obtain rfl := Option.some.inj hquestion
      change (machine.registers left - amount.bits machine == 0) = true ↔ _
      rw [beq_iff_eq, hheld, h.bits hvalue, sub_sub_eq_zero_iff]
      dsimp only
      rw [BitVec.ofInt_add, BitVec.ofInt_natCast]
    | literal | other =>
      rw [hholding] at hquestion
      cases hquestion

variable {spelled : String → String}

theorem Means.run {body : List (Decoded spelled)} :
    ∀ {ledger : Ledger} {machine : Machine}, ledger.Means machine code → ledger.PlainRun body →
      (ledger.run body).Means (machine.run (body.map Decoded.line)) code := by
  induction body with
  | nil => exact fun h _ => h
  | cons decoded body ih =>
    intro ledger machine h hplain
    exact ih (h.step decoded.instruction.address hplain.1) hplain.2

theorem one_code {body : List (Decoded spelled)} {question : Question} {ledger : Ledger}
    {machines : BitVec 32 → Machine} (h : ∀ code, ledger.Means (machines code) code)
    (hplain : ledger.PlainRun body) (hquestion : (ledger.run body).question = some question)
    (code : BitVec 32) :
    ((machines code).run (body.map Decoded.line)).zero = true ↔
      code = BitVec.ofInt 32 question.value :=
  ((h code).run hplain).flag question hquestion

end Ledger

end WindbgMcp.Ioctl
