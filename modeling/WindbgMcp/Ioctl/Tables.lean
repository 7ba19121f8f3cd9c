import WindbgMcp.Ioctl.Update
import WindbgMcp.Library.LittleEndian
import WindbgMcp.Library.Text

/-! Jump tables: the stages of a switch, matched forwards over a block, and the table
they read. -/
namespace WindbgMcp.Ioctl
open Library

def maxTableEntries : Nat := 4096

def tableEntry : Nat := 4

def parseHex (text : List Char) : Option Nat :=
  let digits := if text.head? = some '+' then text.tail else text
  if digits.isEmpty then none
  else
    let value := digits.foldl
      (fun value c => do
        let value ← value
        let digit ← if c.isDigit then some (c.toNat - 48)
          else if 'a' ≤ c ∧ c ≤ 'f' then some (c.toNat - 87)
          else if 'A' ≤ c ∧ c ≤ 'F' then some (c.toNat - 55)
          else none
        some (16 * value + digit)) (some 0)
    value.filter (· < 2 ^ 32)

def leftShift : Operand → Option Nat
  | .other modifier =>
    match (Text.trim modifier).toList with
    | 'l' :: 's' :: 'l' :: ' ' :: '#' :: amount =>
      let parsed := match amount with
        | '0' :: 'x' :: hex => parseHex hex
        | _ => Text.parseUnsigned (2 ^ 32 - 1) (String.ofList amount)
      parsed.filter (· < 64)
    | _ => none
  | _ => none

def entryWidth (memory : MemoryOperand) : Option Nat :=
  memory.size.filter fun width => (width == 1 || width == 2 || width == 4) && memory.scale == width

def entryValue (raw : List UInt8) (effect : Effect) (destination : Option Nat) : Option Int :=
  let bits := raw.length * 8
  if bits = 0 ∨ bits > 64 then none
  else
    let unsigned := LittleEndian.decode raw
    let value : Option Int :=
      if effect = .moveSigned ∧ bits < 64 then
        some (if unsigned < 2 ^ (bits - 1) then unsigned else (unsigned : Int) - 2 ^ bits)
      else if unsigned < 2 ^ 63 then some unsigned else none
    value.bind fun value =>
      match destination with
      | some width =>
        if width < 8 then
          if width * 8 < bits then none else some (value % 2 ^ (width * 8))
        else some value
      | none => some value

/-- The image base a compiler folds into every table entry, and where the fold stands. -/
structure Fold where
  register : String
  position : Nat
  scale : Nat
  deriving DecidableEq, Repr

/-- The base a fold adds, what it multiplies the entry by, and the register of the entry. -/
def foldedBase (instruction : Instruction) (wanted : String) (layout : Layout) :
    Option (String × Nat × String) :=
  match instruction.operands with
  | [.register written, .register source] =>
    if written.width ≥ layout.pointer ∧ instruction.effect = .add ∧
        source.width ≥ layout.pointer then some (source.full, 1, wanted)
    else none
  | .register written :: .register first :: .register second :: modifiers =>
    if written.width ≥ layout.pointer ∧
        (instruction.effect = .add ∨ instruction.mnemonic = "add") ∧
        first.width ≥ layout.pointer ∧ second.width ≥ layout.pointer then
      match modifiers with
      | [] =>
        if first.full ≠ wanted ∧ second.full = wanted then some (first.full, 1, second.full)
        else if first.full = wanted ∧ second.full ≠ wanted then
          some (second.full, 1, first.full)
        else none
      | [modifier] => (leftShift modifier).map fun shift => (first.full, 2 ^ shift, second.full)
      | _ => none
    else none
  | _ => none

inductive Held
  /-- A value read out of a table: the load, the memory operand it read, where it stands,
  the byte map that selected its index and the base folded into it so far. -/
  | read (load : Instruction) (entries : MemoryOperand) (position : Nat)
    (map : Option (MemoryOperand × Nat)) (fold : Option Fold)
  | muddled
  deriving DecidableEq, Repr

def asMap : Held → Option (MemoryOperand × Nat)
  | .read load entries position none none =>
    if load.effect = .move ∧ entries.scale = 1 ∧ entries.size = some 1 then
      some (entries, position)
    else none
  | _ => none

def stage (instruction : Instruction) (position : Nat) (held : List (String × Held))
    (layout : Layout) : Option (String × Held) :=
  match instruction.operand 0 with
  | some (.register written) =>
    if !instruction.writesRegister written.full then none
    else
      match instruction.operand 1 with
      | some (.memory entries) =>
        entries.index.bind fun indexed =>
          if (entryWidth entries).isNone ∨
              ¬ (instruction.effect = .move ∨ instruction.effect = .moveSigned) then none
          else
            match held.lookup indexed.full with
            | none => some (written.full, .read instruction entries position none none)
            | some before =>
              match asMap before with
              | some map => some (written.full, .read instruction entries position (some map) none)
              | none => some (written.full, .muddled)
      | some (.register source) =>
        let folded := (foldedBase instruction written.full layout).bind fun found =>
          (held.lookup found.2.2).map fun carried => (found, carried)
        match folded with
        | some ((base, scale, _), carried) =>
          match carried with
          | .read load entries at_load map none =>
            some (written.full,
              .read load entries at_load map (some { register := base, position, scale }))
          | _ => some (written.full, .muddled)
        | none =>
          (held.lookup source.full).bind fun carried =>
            if instruction.effect = .move ∧ written.width ≥ layout.pointer ∧
                source.width ≥ layout.pointer then some (written.full, carried)
            else none
      | _ => none
  | _ => none

def stagesIn (instructions : List Instruction) (layout : Layout) : List (String × Held) :=
  instructions.zipIdx.foldl
    (fun held entry =>
      let instruction := entry.1
      if isCall instruction.flow then []
      else
        let left := stage instruction entry.2 held layout
        let kept := held.filter fun entry => !instruction.writesRegister entry.1
        match left with
        | some (register, value) =>
          (register, value) :: kept.filter fun entry => entry.1 != register
        | none => kept) []

structure Switch where
  map : Option (MemoryOperand × Nat)
  load : Instruction
  entries : MemoryOperand
  position : Nat
  fold : Option Fold
  deriving DecidableEq, Repr

/-- The switch an indirect jump reads, where the block it ends holds one. -/
def switchAt (instructions : List Instruction) (jump : Instruction) (layout : Layout) :
    Option Switch :=
  let held := stagesIn instructions layout
  match jump.operand 0 with
  | some (.memory entries) =>
    entries.index.bind fun indexed =>
      if entries.scale ≠ tableEntry ∨ entries.size ≠ some tableEntry then none
      else
        let switch (map : Option (MemoryOperand × Nat)) : Switch :=
          { map, load := jump, entries, position := instructions.length, fold := none }
        match held.lookup indexed.full with
        | none => some (switch none)
        | some before => (asMap before).map fun map => switch (some map)
  | some (.register reads) =>
    match held.lookup reads.full with
    | some (.read load entries position map fold) => some { map, load, entries, position, fold }
    | _ => none
  | _ => none

structure Table where
  jump : Nat
  table : Nat
  entries : Nat
  followed : Nat
  /-- The default block, where an index inside the bounds goes there. -/
  default : Option Nat
  deriving DecidableEq, Repr

/-- A table that resolved, with the codes it selects and where each of them goes. -/
structure Resolved where
  table : Table
  cases : List (Nat × Nat)
  proved : Bool
  status : Status
  deriving DecidableEq, Repr

def factsAt (instructions : List Instruction) (arrived : Facts) (layout : Layout)
    (position : Nat) : Facts :=
  (instructions.take position).foldl
    (fun facts instruction => (update facts instruction layout none).facts) arrived

def checkedAddSigned (address : Nat) (displacement : Int) : Option Nat :=
  if 0 ≤ address + displacement ∧ address + displacement < 2 ^ 64 then
    some (address + displacement).toNat
  else none

def addressOf (facts : Facts) (memory : MemoryOperand) : Option Nat :=
  match memory.base with
  | some base =>
    match facts.get base.full with
    | some (.address address) => checkedAddSigned address memory.displacement
    | _ => none
  | none => checkedAddSigned 0 memory.displacement

/-- Everything of a switch that was recovered before its entries are looked at. -/
structure Located where
  bound : Bound
  table : Nat
  entries : Nat
  fold : Option (Nat × Nat)
  width : Nat
  effect : Effect
  destination : Option Nat
  cases : List Nat
  bytes : List UInt8
  deriving DecidableEq, Repr

def Located.target (located : Located) (case : Nat) : Option Nat :=
  let slot := case * located.width
  if slot + located.width ≤ located.bytes.length then
    (entryValue ((located.bytes.drop slot).take located.width) located.effect
      located.destination).bind fun entry =>
        match located.fold with
        | some (base, scale) =>
          let distance := entry * scale
          if -2 ^ 63 ≤ distance ∧ distance < 2 ^ 63 then some (asU64 (base + distance)) else none
        | none => if 0 ≤ entry then some entry.toNat else none
  else none

abbrev Reader := (address length : Nat) → Option (List UInt8)

def refused {α : Type} (capped : Bool) : Option α → Except Bool α
  | some value => .ok value
  | none => .error capped

def require (capped : Bool) (condition : Prop) [Decidable condition] : Except Bool Unit :=
  if condition then .ok () else .error capped

def foldOf (instructions : List Instruction) (arrived : Facts) (layout : Layout)
    (switch : Switch) : Except Bool (Option (Nat × Nat)) :=
  match switch.fold with
  | some fold =>
    match (factsAt instructions arrived layout fold.position).get fold.register with
    | some (.address address) =>
      if fold.scale < 2 ^ 63 then .ok (some (address, fold.scale)) else .error false
    | _ => .error false
  | none => .ok none

def casesOf (instructions : List Instruction) (arrived : Facts) (layout : Layout)
    (reader : Reader) (switch : Switch) (entries : Nat) : Except Bool (List Nat) :=
  match switch.map with
  | some (map, position) => do
    let start ← refused false (addressOf (factsAt instructions arrived layout position) map)
    let bytes ← refused false (reader start entries)
    -- A short read is not the map.
    require false (bytes.length = entries)
    pure (bytes.map UInt8.toNat)
  | none => .ok (List.range entries)

def locate (instructions : List Instruction) (jump : Instruction) (arrived : Facts)
    (layout : Layout) (reader : Reader) : Except Bool Located := do
  let switch ← refused false (switchAt instructions jump layout)
  let memory := switch.entries
  -- The bound that matters is the one standing at the load.
  let atLoad := factsAt instructions arrived layout switch.position
  let bound ← refused false atLoad.bound
  let index ← refused false memory.index
  require false (index.full = bound.register)
  require false (bound.shift = 0)
  let entries := bound.limit + 1
  require false (entries < 2 ^ 64)
  require true (entries ≤ maxTableEntries)
  let table ← refused false (addressOf atLoad memory)
  let fold ← foldOf instructions arrived layout switch
  let width ← refused false (entryWidth memory)
  let destination := match switch.load.operand 0 with
    | some (.register register) => some register.width
    | _ => none
  let cases ← casesOf instructions arrived layout reader switch entries
  let last ← refused false cases.max?
  require true (last + 1 ≤ maxTableEntries)
  let bytes ← refused false (reader table ((last + 1) * width))
  pure { bound, table, entries, fold, width, effect := switch.load.effect, destination, cases,
         bytes }

/-- The entries in the order of their indices: the codes found so far, and the default
where a slot went there. -/
def followSlots (located : Located) (inImage : Nat → Bool) :
    List Nat → (position : Nat) → List (Nat × Nat) → Option Nat →
      Option (List (Nat × Nat) × Option Nat)
  | [], _, found, reached => some (found, reached)
  | case :: cases, position, found, reached =>
    match located.target case with
    | none => none
    | some target =>
      -- A slot that goes to the default is not a case.
      if located.bound.default = some target then
        followSlots located inImage cases (position + 1) found (some target)
      else if !inImage target then none
      else
        let code := (position + asU64 located.bound.offset) % 2 ^ 64
        followSlots located inImage cases (position + 1) (found ++ [(code, target)]) reached

def followTable (instructions : List Instruction) (jump : Instruction) (arrived : Facts)
    (layout : Layout) (reader : Option Reader) (inImage : Nat → Bool) :
    Except Bool Resolved := do
  let reader ← refused false reader
  let located ← locate instructions jump arrived layout reader
  let followed ← refused false (followSlots located inImage located.cases 0 [] none)
  pure
    { table :=
        { jump := jump.address, table := located.table, entries := located.entries
          followed := followed.1.length, default := followed.2 }
      cases := followed.1
      proved := located.bound.proved
      status := (factsAt instructions arrived layout instructions.length).status }

end WindbgMcp.Ioctl
