import WindbgMcp.Ioctl.Simulation
import WindbgMcp.Library.Groups
import WindbgMcp.Library.LittleEndian

/-! The map of a dispatch routine: its literal pool put back, the facts settled block by block,
the blocks recorded once over the settled facts, and the edges of its tables read back. -/
namespace WindbgMcp.Ioctl
open Driver (Flow JumpTables)
open Walk (Halt)
open Library

def maxCases : Nat := 4096

def maxTables : Nat := 256

def maxUnresolved : Nat := 1024

def maxSweeps : Nat := 32

def maxPoolReads : Nat := 256

abbrev Polls := Nat → Option Halt

inductive Recovery
  | compare
  | jumpTable
  deriving DecidableEq, Repr

structure Case where
  code : Nat
  recovered : Recovery
  status : Status
  site : Nat
  lands : Nat
  proved : Bool
  deriving DecidableEq, Repr

structure Map where
  dispatch : Nat := 0
  cases : List Case := []
  caseCount : Nat := 0
  unproved : Nat := 0
  tables : List Table := []
  unresolved : List Nat := []
  untracked : List Nat := []
  /-- Whether a control code was traced from the request anywhere. -/
  traced : Bool := false
  halted : Option Halt := none
  capHit : Bool := false
  unsettled : Bool := false
  examined : Nat := 0
  blind : Nat := 0
  deriving DecidableEq, Repr

def poolLoad (layout : Layout) (instruction : Instruction) : Option Nat :=
  if !layout.literalPool || instruction.effect != .move then none
  else
    match instruction.operand 1 with
    | some (.memory memory) =>
      if memory.base.isNone && memory.index.isNone && memory.size == some fieldWidth then
        memory.address
      else none
    | _ => none

structure Pool where
  asked : List (Nat × Option Nat) := []
  reads : Nat := 0
  polls : Nat := 0
  stopped : Option Halt := none
  capped : Bool := false
  deriving DecidableEq, Repr

def poolValue (reader : Reader) (address : Nat) : Option Nat :=
  match reader address fieldWidth with
  | some bytes =>
    if bytes.length = fieldWidth then some (LittleEndian.decode bytes) else none
  | none => none

def poolReads (layout : Layout) (reader : Reader) (isConstant : Nat → Bool) (halt : Polls) :
    List Instruction → Pool → Pool
  | [], pool => pool
  | instruction :: rest, pool =>
    match poolLoad layout instruction with
    | none => poolReads layout reader isConstant halt rest pool
    | some address =>
      if (pool.asked.lookup address).isSome then
        poolReads layout reader isConstant halt rest pool
      else if !isConstant address then
        poolReads layout reader isConstant halt rest
          { pool with asked := (address, none) :: pool.asked }
      else if pool.reads ≥ maxPoolReads then { pool with capped := true }
      else
        match halt pool.polls with
        | some why => { pool with polls := pool.polls + 1, stopped := some why }
        | none =>
          poolReads layout reader isConstant halt rest
            { pool with
              asked := (address, poolValue reader address) :: pool.asked
              reads := pool.reads + 1, polls := pool.polls + 1 }

def putBack (layout : Layout) (asked : List (Nat × Option Nat)) (instruction : Instruction) :
    Instruction :=
  match (poolLoad layout instruction).bind fun address => asked.lookup address with
  | some (some value) =>
    { instruction with operands := instruction.operands.set 1 (.immediate value) }
  | _ => instruction

def withPoolImmediates (listing : List Instruction) (layout : Layout) (reader : Reader)
    (isConstant : Nat → Bool) (halt : Polls) : List Instruction × Pool :=
  if !layout.literalPool then (listing, {})
  else
    let pool := poolReads layout reader isConstant halt listing {}
    (listing.map (putBack layout pool.asked), pool)

abbrev Entries := List (Option Facts)

def arrive (state : Entries × Bool) (edge : Nat × Facts) : Entries × Bool :=
  match state.1.getD edge.1 none with
  | some existing =>
    let joined := existing.join edge.2
    (state.1.set edge.1 (some joined.1), state.2 || joined.2)
  | none => (state.1.set edge.1 (some edge.2), true)

def sweep (listing : List Instruction) (layout : Layout) (inImage : Nat → Bool) (order : List Nat)
    (entries : Entries) : Entries × Bool :=
  order.foldl
    (fun state index =>
      match state.1.getD index none with
      | none => state
      | some facts =>
        (simulate index (graph listing) listing facts layout none inImage).out.foldl arrive state)
    (entries, false)

structure Swept where
  entries : Entries
  polls : Nat
  halted : Option Halt := none
  unsettled : Bool := false
  deriving DecidableEq, Repr

def settle (listing : List Instruction) (layout : Layout) (inImage : Nat → Bool) (order : List Nat)
    (halt : Polls) : (budget : Nat) → Entries → Nat → Swept
  | 0, entries, polls => { entries, polls, unsettled := true }
  | budget + 1, entries, polls =>
    match halt polls with
    | some why => { entries, polls := polls + 1, halted := some why }
    | none =>
      let swept := sweep listing layout inImage order entries
      if swept.2 then settle listing layout inImage order halt budget swept.1 (polls + 1)
      else { entries := swept.1, polls := polls + 1 }

def initialEntries (layout : Layout) (blocks : Nat) : Entries :=
  (List.replicate blocks none).set 0
    (some { registers := (layout.irpRegister.map fun register => (register, .irp)).toList })

def isUlong (code : Nat) : Bool := code < 2 ^ 32

def pushCase (map : Map) (code : Nat) (recovered : Recovery) (site lands : Nat) (proved : Bool)
    (status : Status) : Map :=
  if isUlong code then
    let case : Case := { code, recovered, status, site, lands, proved }
    let map := { map with
      caseCount := map.caseCount + 1
      unproved := if proved then map.unproved else map.unproved + 1 }
    if map.cases.length ≥ maxCases then { map with capHit := true }
    else { map with cases := map.cases ++ [case] }
  else map

def pushFound (map : Map) (found : Found) : Map :=
  pushCase map found.code .compare found.site found.lands found.proved {}

def pushTable (map : Map) (resolved : Resolved) : Map :=
  let map := resolved.cases.foldl
    (fun map found => pushCase map found.1 .jumpTable resolved.table.jump found.2
      resolved.proved resolved.status) map
  if map.tables.length < maxTables then { map with tables := map.tables ++ [resolved.table] }
  else { map with capHit := true }

def pushUntracked (map : Map) (site : Nat) : Map :=
  if map.untracked.length < maxUnresolved then { map with untracked := map.untracked ++ [site] }
  else { map with capHit := true }

def pushUnresolved (map : Map) (site : Nat) : Map :=
  if map.unresolved.length < maxUnresolved then { map with unresolved := map.unresolved ++ [site] }
  else { map with capHit := true }

def record (map : Map) (run : Run) : Map :=
  let map := { map with
    traced := map.traced || run.traced, capHit := map.capHit || run.capped
    blind := map.blind + run.blind, examined := map.examined + run.examined }
  let map := run.cases.foldl pushFound map
  let map := run.table.toList.foldl pushTable map
  let map := run.untracked.foldl pushUntracked map
  run.unresolved.toList.foldl pushUnresolved map

/-- The walk of one block over the settled facts; a block no path reaches is walked with nothing
believed. -/
def recorded (listing : List Instruction) (layout : Layout) (reader : Reader)
    (inImage : Nat → Bool) (entries : Entries) (index : Nat) : Run :=
  simulate index (graph listing) listing ((entries.getD index none).getD {}) layout (some reader)
    inImage

def recordBlocks (walk : Nat → Run) (halt : Polls) : List Nat → Map → Nat → Map × Nat
  | [], map, polls => (map, polls)
  | index :: order, map, polls =>
    if map.halted.isSome then (map, polls)
    else
      match halt polls with
      | some why => ({ map with halted := some why }, polls + 1)
      | none => recordBlocks walk halt order (record map (walk index)) (polls + 1)

def pollOnce (halt : Polls) (state : Map × Nat) : Map × Nat :=
  if state.1.halted.isSome then state
  else ({ state.1 with halted := halt state.2 }, state.2 + 1)

def enrich (halt : Polls) : (left : Nat) → Option Halt → Nat → Nat × Option Halt
  | 0, halted, _ => (0, halted)
  | left + 1, halted, polls =>
    if halted.isSome then (0, halted)
    else
      match halt polls with
      | some why => (0, some why)
      | none =>
        let rest := enrich halt left none (polls + 1)
        (rest.1 + 1, rest.2)

structure Prepared where
  listing : List Instruction
  order : List Nat
  entries : Entries
  polls : Nat
  halted : Option Halt
  capHit : Bool
  unsettled : Bool
  deriving DecidableEq, Repr

def prepare (listing : List Instruction) (layout : Layout) (reader : Reader)
    (inImage isConstant : Nat → Bool) (halt : Polls) (sweeps : Nat) : Prepared :=
  let (listing, pool) := withPoolImmediates listing layout reader isConstant halt
  let order := (graph listing).walkOrder
  let initial := initialEntries layout (graph listing).blocks.length
  -- A break the pool phase saw is one no later poll will see.
  let swept : Swept :=
    if sweeps = 0 then { entries := initial, polls := pool.polls, unsettled := true }
    else if pool.stopped.isSome then { entries := initial, polls := pool.polls }
    else settle listing layout inImage order halt sweeps initial pool.polls
  { listing, order
    -- Facts that have not settled are stronger than the truth.
    entries := if swept.unsettled then swept.entries.map fun _ => none else swept.entries
    polls := swept.polls, halted := pool.stopped <|> swept.halted
    capHit := pool.capped, unsettled := swept.unsettled }

def mapWithin (dispatch : Nat) (listing : List Instruction) (layout : Layout) (reader : Reader)
    (inImage isConstant : Nat → Bool) (halt : Polls) (sweeps : Nat) : Map :=
  let ready := prepare listing layout reader inImage isConstant halt sweeps
  let walk := recorded ready.listing layout reader inImage ready.entries
  let start : Map := { dispatch, halted := ready.halted, capHit := ready.capHit
                       unsettled := ready.unsettled }
  let (map, polls) := pollOnce halt (recordBlocks walk halt ready.order start ready.polls)
  let enriched := enrich halt map.cases.length map.halted polls
  { map with cases := map.cases.take enriched.1, halted := enriched.2 }

def map (dispatch : Nat) (listing : List Instruction) (layout : Layout) (reader : Reader)
    (inImage isConstant : Nat → Bool) (halt : Polls) : Map :=
  mapWithin dispatch listing layout reader inImage isConstant halt maxSweeps

def jumpTargetsWithin (dispatch : Nat) (listing : List Instruction) (layout : Layout)
    (reader : Reader) (inImage isConstant : Nat → Bool) (halt : Polls) (sweeps : Nat) :
    JumpTables :=
  let found := mapWithin dispatch listing layout reader inImage isConstant halt sweeps
  let bounded := found.capHit || found.unsettled
  if found.halted.isSome || found.unsettled then
    { targets := [], stopped := found.halted, bounded }
  else
    let listed := (found.cases.filter fun case => case.recovered == .jumpTable).map fun case =>
      (case.site, case.lands)
    -- A slot with no case of its own is still an edge.
    let defaults := found.tables.filterMap fun table =>
      table.default.map fun default => (table.jump, default)
    let bySite : Groups Nat Nat := (listed ++ defaults).foldl Groups.file []
    { targets := bySite.map fun group => (group.1, sortedSet group.2), stopped := none, bounded }

def jumpTargets (dispatch : Nat) (listing : List Instruction) (layout : Layout) (reader : Reader)
    (inImage isConstant : Nat → Bool) (halt : Polls) : JumpTables :=
  jumpTargetsWithin dispatch listing layout reader inImage isConstant halt maxSweeps

end WindbgMcp.Ioctl
