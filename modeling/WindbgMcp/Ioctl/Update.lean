import WindbgMcp.Ioctl.Facts

/-! What one instruction does to the facts, and the compare or the loss it leaves for
the branch behind it. -/
namespace WindbgMcp.Ioctl

/-- The literal a `movk` leaves in the register it names, given what that held. -/
def movkLiteral (held : Option Value) (operand : Option Operand) : Option Nat :=
  match operand, held with
  | some (.immediate immediate), some (.literal literal) =>
    if immediate = 0 then none
    else
      let halfword := (immediate &&& (2 ^ 64 - immediate)).log2 / 16 * 16
      let mask := 0xffff <<< halfword
      if immediate &&& (2 ^ 64 - 1 - mask) = 0 then
        let value := (literal &&& (2 ^ 64 - 1 - mask)) ||| immediate
        if value < 2 ^ 32 then some value else none
      else none
  | _, _ => none

def stepped (offset : Int) (amount : Nat) (forward : Bool) (width : Nat) : Int :=
  let signed : Int := if forward then amount else -amount
  if width = fieldWidth then (offset + signed) % 2 ^ 32
  else asI64 (asU64 (offset + signed))

def scalarOf (facts : Facts) : Option Operand → Option Nat
  | some (.immediate value) => some value
  | some (.register register) =>
    if register.width ≥ fieldWidth then
      match facts.get register.full with
      | some (.literal value) => some value
      | _ => none
    else none
  | _ => none

/-- Whether an instruction leaves a bounds check still describing the register it covered:
a byte map read through that register and zero-extended. -/
def keepsABound (instruction : Instruction) (register : String) : Bool :=
  match instruction.operand 1 with
  | some (.memory memory) => instruction.effect == .move &&
    memory.index.any (fun index => index.full == register) && memory.scale == 1 &&
      memory.size.getD 1 == 1
  | _ => false

/-- What a `mov`-shaped instruction's source is worth, and whether the control code was
traced from the request to it. -/
def sourceValue (facts : Facts) (effect : Effect) (source : Option Operand) (layout : Layout) :
    Option Value × Bool :=
  match source with
  | some (.immediate value) =>
    (if effect = .move ∧ value < 2 ^ 32 then some (.literal value) else none, false)
  | some (.register register) =>
    (if effect = .move ∨ effect = .moveSigned then
      (facts.get register.full).filter fun value => register.width ≥ value.carriedBy layout
    else none, false)
  | some (.memory memory) =>
    if effect = .loadAddress then (memory.address.map .address, false)
    else if memory.index.isSome then (none, false)
    else
      let held := memory.base.bind fun base => facts.get base.full
      let dword := memory.size == some fieldWidth
      let displacement := memory.displacement
      if held = some .irp ∧ displacement = layout.currentStackLocation ∧
          memory.size = some layout.pointer then (some .stackLocation, false)
      else if held = some .stackLocation ∧ displacement = layout.controlCode ∧ dword then
        (some (.code 0 0 true), true)
      else if held = some .stackLocation ∧ displacement = layout.inputLength ∧ dword then
        (some .inputLength, false)
      else if held = some .stackLocation ∧ displacement = layout.outputLength ∧ dword then
        (some .outputLength, false)
      -- The control code's displacement off a register whose chain was not followed.
      else if held = none ∧ displacement = layout.controlCode ∧ dword ∧ memory.base.isSome then
        (some (.code 0 0 false), false)
      else (none, false)
  | _ => (none, false)

/-- The value an arithmetic instruction computes from: its first source where it names
three operands, what its destination held where it names two. -/
def arithmeticSource (facts : Facts) (operands : List Operand) (held : Option Value) :
    Option Value :=
  if operands.length ≥ 3 then
    (operands[operands.length - 2]?.bind registerFull).bind facts.get
  else held

def arithmeticAmount (operands : List Operand) : Option Operand :=
  if operands.length ≥ 2 then operands.getLast? else none

def compare (facts : Facts) (operands : List Operand) (layout : Layout) («at» : Nat) :
    Option Compared × Bool :=
  let bound := scalarOf facts operands[1]?
  match operands.head? with
  | some (.memory memory) =>
    match sourceValue facts .move (some (.memory memory)) layout with
    | (some (.code offset 0 proved), traced) =>
      (some { equality := .subtractive
              code := bound.map fun value => (value + asU64 offset) % 2 ^ 64
              proved, index := none, bound, chained := false, site := «at» }, traced)
    | (_, traced) => (none, traced)
  | some (.register operand) =>
    if operand.width < fieldWidth then (none, false)
    else
      match facts.get operand.full with
      | some (.code offset shift proved) =>
        (some { equality := .subtractive
                code := if shift = 0 then bound.map fun value => (value + asU64 offset) % 2 ^ 64
                  else none
                proved, index := some (operand.full, offset, shift), bound
                chained := false, site := «at» }, false)
      | _ => (none, false)
  | _ => (none, false)

def Facts.carriers (facts : Facts) : List String :=
  (facts.registers.filter fun entry => entry.2.isCode).map Prod.fst

/-- Whether a branch on the flags this instruction wrote would be reading the control
code, and whether asking traced it from the request. -/
def noteLoss (facts : Facts) (carried : List String) (instruction : Instruction)
    (lost : Option Nat) (layout : Layout) : Option Nat × Bool :=
  if instruction.writesFlags then
    let gone := carried.any fun register => !(facts.get register).any Value.isCode
    let reads := instruction.reads.any fun register => register.full ∈ carried
    let probed := instruction.operands.findSome? fun operand =>
      match sourceValue facts .move (some operand) layout with
      | (some (.code ..), traced) => some traced
      | _ => none
    (if gone || reads || probed.isSome then some instruction.address else none,
      !reads && probed == some true)
  else (lost, false)

def isErrorStatus (value : Nat) : Bool := value >>> 30 == 0b11

def statusAfter (status : Status) (instruction : Instruction) (layout : Layout) (facts : Facts) :
    Status :=
  if instruction.effect = .compare ∨ instruction.effect = .test ∨ instruction.effect = .push then
    status
  else
    let returns := instruction.writesRegister layout.returnRegister
    let addressed := instruction.operands.findSome? fun operand =>
      match operand with
      | .memory memory => some memory
      | _ => none
    let writesANamedRegister := instruction.operands.any fun operand =>
      (registerFull operand).any instruction.writesRegister
    let stores := !writesANamedRegister && addressed.any fun memory =>
      memory.index.isNone && memory.size == some fieldWidth &&
        memory.displacement == layout.statusField &&
        memory.base.any fun base => facts.get base.full == some .irp
    if !returns && !stores then status
    else
      let source := if stores then instruction.operands.find? fun operand =>
          match operand with
          | .memory _ => false
          | _ => true
        else instruction.operand 1
      let written := match source with
        | some (.immediate value) => if value < 2 ^ 32 then some value else none
        | some (.register register) =>
          match facts.get register.full with
          | some (.literal value) => if register.width ≥ fieldWidth then some value else none
          | _ => none
        | _ => none
      let inserted := if instruction.mnemonic = "movk" then
          movkLiteral (facts.get layout.returnRegister) (instruction.operand 1)
        else none
      let refusal := match inserted with
        | some value => isErrorStatus value
        | none => instruction.effect == .move && written.any isErrorStatus
      let modelled := (instruction.operand 0).bind registerFull == some layout.returnRegister
      { returned := if returns then modelled && refusal else status.returned
        irp := if stores then refusal else status.irp }

/-- A64's conditional compare: its own reading, where it has one, and whether the links
before it are still live. -/
def chainedCompare (facts : Facts) (instruction : Instruction) (layout : Layout) :
    Option (Option Compared × Bool) × Bool :=
  if instruction.mnemonic = "ccmp" ∨ instruction.mnemonic = "ccmn" then
    if instruction.condition = some .notEqual then
      match (instruction.operand 2).bind immediateOf with
      | none => (none, false)
      | some forced =>
        let keepsEarlier := forced &&& 0b0100 != 0
        if instruction.mnemonic = "ccmp" then
          match instruction.operand 0, instruction.operand 1 with
          | some left, some right =>
            let own := compare facts [left, right] layout instruction.address
            (some (own.1.map fun was => { was with chained := true }, keepsEarlier), own.2)
          | _, _ => (none, false)
        else (some (none, keepsEarlier), false)
    else (none, false)
  else (none, false)

/-- What one instruction leaves: the facts, whether the code was traced, the loss and the
conditional compare it was, and the compare a branch behind it reads. -/
structure Updated where
  facts : Facts
  traced : Bool
  lost : Option Nat
  chained : Option (Nat × Bool) := none
  next : Option Compared := none
  deriving DecidableEq, Repr

def clearWritten (instruction : Instruction) (destination : Option String) (facts : Facts) :
    Facts :=
  instruction.writes.foldl
    (fun facts written =>
      if destination = some written.full then facts
      else (facts.set written.full none).dropBoundOn written.full) facts

def clearVolatile (layout : Layout) (facts : Facts) : Facts :=
  let cleared := layout.volatile.foldl Facts.remove
    { facts with status := { facts.status with returned := false } }
  if facts.bound.any fun bound => bound.register ∈ layout.volatile then
    { cleared with bound := none }
  else cleared

/-- What a destination wide enough to hold a control code holds afterwards, and the
compare the instruction is. -/
def written (facts : Facts) (instruction : Instruction) (layout : Layout) (register : Register) :
    Facts × Bool × Option Compared :=
  let destination := register.full
  let operands := instruction.operands
  let held := facts.get destination
  let step (forward : Bool) (equality : Nat → Equality) (otherwise : Facts) :=
    match arithmeticSource facts operands held, scalarOf facts (arithmeticAmount operands) with
    | some (.code offset shift proved), some amount =>
      let offset := stepped offset amount forward register.width
      (facts.set destination (some (.code offset shift proved)), false,
        some { equality := equality amount
               code := if shift = 0 then some (asU64 offset) else none
               proved, index := some (destination, offset, shift), bound := some 0
               chained := false, site := instruction.address })
    | _, _ => (otherwise, false, none)
  match instruction.effect with
  | .move | .loadAddress =>
    let rebased := match instruction.effect, instruction.operand 1 with
      | .loadAddress, some (.memory memory) =>
        if memory.index.isSome then none
        else match memory.base.bind fun base => facts.get base.full with
          | some (.code offset shift proved) =>
            let moved := offset - memory.displacement
            if -2 ^ 63 ≤ moved ∧ moved < 2 ^ 63 then some (.code moved shift proved) else none
          | _ => none
      | _, _ => none
    match rebased with
    | some value =>
      (facts.set destination (some value |>.filter fun value =>
        register.width ≥ value.carriedBy layout), false, none)
    | none =>
      let source := sourceValue facts instruction.effect (instruction.operand 1) layout
      (facts.set destination (source.1.filter fun value =>
        register.width ≥ value.carriedBy layout), source.2, none)
  | .subtract => step true (fun _ => .subtractive) (facts.set destination none)
  | .add =>
    step false (fun amount => .afterAdd amount register.width)
      (match arithmeticSource facts operands held, scalarOf facts (arithmeticAmount operands) with
      | some (.address base), some amount =>
        if register.width ≥ layout.pointer then
          facts.set destination
            (some (.address (asU64 (stepped (asI64 base) amount true layout.pointer))))
        else facts.set destination none
      | _, _ => facts.set destination none)
  | .shiftRight =>
    (match arithmeticSource facts operands held, (arithmeticAmount operands).bind immediateOf with
    | some (.code offset shift proved), some amount =>
      let shift := shift + amount % 2 ^ 32
      facts.set destination (if shift < 2 ^ 32 then some (.code offset shift proved) else none)
    | _, _ => facts.set destination none, false, none)
  | .other =>
    (if instruction.mnemonic = "movk" then
      facts.set destination ((movkLiteral held (instruction.operand 1)).map .literal)
    else facts.set destination none, false, none)
  | _ => (facts.set destination none, false, none)

def update (facts : Facts) (instruction : Instruction) (layout : Layout) (lost : Option Nat) :
    Updated :=
  let carried := facts.carriers
  let facts := { facts with status := statusAfter facts.status instruction layout facts }
  if instruction.effect = .compare then
    let compared := compare facts instruction.operands layout instruction.address
    { facts, traced := compared.2, lost, next := compared.1 }
  else
    match chainedCompare facts instruction layout with
    | (some (was, keepsEarlier), traced) =>
      let loss := if was.isNone then noteLoss facts carried instruction lost layout
        else (lost, false)
      { facts, traced := traced || loss.2, lost := loss.1
        chained := some (instruction.address, keepsEarlier), next := was }
    | (none, traced) =>
      let facts := if isCall instruction.flow then clearVolatile layout facts else facts
      let facts := clearWritten instruction ((instruction.operand 0).bind registerFull) facts
      let unmodelled (facts : Facts) : Updated :=
        let loss := noteLoss facts carried instruction lost layout
        { facts, traced := traced || loss.2, lost := loss.1 }
      if instruction.effect = .test ∨ instruction.effect = .push then unmodelled facts
      else
        match instruction.operand 0 with
        | some (.register register) =>
          if !instruction.writesRegister register.full then unmodelled facts
          else if register.width < fieldWidth then
            unmodelled ((facts.set register.full none).dropBoundOn register.full)
          else
            let facts := if facts.bound.any fun bound => bound.register == register.full &&
                !keepsABound instruction bound.register then { facts with bound := none }
              else facts
            match written facts instruction layout register with
            | (facts, tracedHere, some compared) =>
              { facts, traced := traced || tracedHere, lost, next := some compared }
            | (facts, tracedHere, none) =>
              let loss := noteLoss facts carried instruction lost layout
              { facts, traced := traced || tracedHere || loss.2, lost := loss.1 }
        | _ => unmodelled facts

def foldedCompare (facts : Facts) (instruction : Instruction) (layout : Layout) :
    Option (Compared × Condition) × Bool :=
  let condition := if instruction.mnemonic = "cbz" then some Condition.equal
    else if instruction.mnemonic = "cbnz" then some Condition.notEqual
    else none
  match condition, instruction.operand 0 with
  | some condition, some (.register register) =>
    let own := compare facts [.register register, .immediate 0] layout instruction.address
    (own.1.map fun was => (was, condition), own.2)
  | _, _ => (none, false)

def branchesOnTheCode (facts : Facts) (instruction : Instruction) : Bool :=
  instruction.operands.any fun operand =>
    match operand with
    | .register register => (facts.get register.full).any Value.isCode
    | _ => false

/-- Whether this flag write fixes the zero flag for every control code, and to what. -/
def decidesZero (facts : Facts) (instruction : Instruction) : Option Bool :=
  match instruction.operands.reverse with
  | .register right :: .register left :: _ =>
    -- The same slice of a register, which the full-width name does not answer.
    if left.name ≠ right.name then none
    else
      let mnemonic := instruction.mnemonic
      match instruction.effect with
      | .compare => if mnemonic = "cmp" then some true else none
      | .subtract => if mnemonic = "sub" ∨ mnemonic = "subs" then some true else none
      | .bitXor => if mnemonic = "xor" then some true else none
      | .test => if mnemonic = "test" ∨ mnemonic = "tst" then identity left else none
      | .bitAnd => if mnemonic = "and" ∨ mnemonic = "ands" then identity left else none
      | .bitOr => if mnemonic = "or" then identity left else none
      | _ => none
  | _ => none
where
  identity (left : Register) : Option Bool :=
    if left.width ≥ fieldWidth then
      match facts.get left.full with
      | some (.literal value) => some (value == 0)
      | _ => none
    else none

def equalitySurvives (condition : Condition) (flags : Equality) : Bool × Bool :=
  match condition with
  | .equal | .notEqual => (false, false)
  | .unsignedAbove | .signedGreater | .negative => (false, true)
  | .unsignedBelowOrEqual | .signedLessOrEqual | .notNegative => (true, false)
  | .parity => (true, false)
  | .notParity => (false, true)
  | .unsignedBelow => (flags.carry, !flags.carry)
  | .unsignedAboveOrEqual => (!flags.carry, flags.carry)
  | .overflow | .signedLess => (flags.overflow, !flags.overflow)
  | .notOverflow | .signedGreaterOrEqual => (!flags.overflow, flags.overflow)

end WindbgMcp.Ioctl
