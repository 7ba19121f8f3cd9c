import WindbgMcp.Ioctl.Graph
import WindbgMcp.Ioctl.Tables

/-! The walk of one block: what its instructions do to the facts, what its terminator
recognises, and the facts on each edge out of it. -/
namespace WindbgMcp.Ioctl
open Driver (Flow)

/-- The walk inside a block: the facts, and the state of the flags beside them. -/
structure Walking where
  facts : Facts
  compared : List Compared := []
  lost : Option Nat := none
  /-- The loss of a conditional compare's forced arm. -/
  forced : Option Nat := none
  traced : Bool := false
  justLost : Option Nat := none
  chain : Option Nat := none
  ownFlags : Bool := false
  /-- The zero flag, where the last flag write fixed it for every control code. -/
  decided : Option Bool := none
  deriving DecidableEq, Repr

namespace Walking

/-- One flag write taken in: the readings, the losses and the chain it leaves. -/
def absorb (state : Walking) (next : Option Compared) (chained : Option (Nat × Bool)) : Walking :=
  match chained with
  | none =>
    { state with
      compared := next.toList, lost := state.justLost, forced := none, justLost := none
      chain := none }
  | some (site, keepsEarlier) =>
    let predecessor := !state.compared.isEmpty && state.ownFlags
    let blind := next.isNone
    let state := { state with chain := some site }
    match keepsEarlier, predecessor with
    | true, false =>
      { state with
        compared := [], lost := state.lost <|> state.justLost, justLost := none
        forced := some site }
    | true, true =>
      { state with
        compared := state.compared.map (fun was => { was with chained := true }) ++ next.toList
        lost := state.lost <|> state.justLost, justLost := none
        forced := state.forced <|> (if blind then some site else none) }
    | false, _ =>
      let unreachable := next.any fun own => own.code.isSome &&
        (state.compared.any (fun was => was.chained && was.code == own.code) ||
          !state.compared.isEmpty &&
            state.compared.all fun was => was.code.isSome && was.code == own.code)
      let unnamed := (state.compared.find? fun was => was.code.isNone).map Compared.site
      let hadReadings := !state.compared.isEmpty
      { state with
        compared := if unreachable then [] else next.toList
        lost := state.lost <|> state.justLost <|>
          (if blind && hadReadings then some site else none) <|> unnamed <|>
          (if unreachable then some site else none)
        justLost := none, forced := none }

def clobber (state : Walking) : Walking :=
  { state with
    compared := [], lost := none, forced := none, chain := none, ownFlags := false
    decided := none }

def step (layout : Layout) (state : Walking) (instruction : Instruction) : Walking :=
  let settles := decidesZero state.facts instruction
  let updated := update state.facts instruction layout state.justLost
  let after := { state with
    facts := updated.facts, traced := state.traced || updated.traced, justLost := updated.lost }
  if isCall instruction.flow then after.clobber
  else if instruction.writesFlags || (layout.staticOutcomeHidesFlagWrite && settles.isSome) then
    { after.absorb updated.next updated.chained with ownFlags := true, decided := settles }
  else after

/-- The terminator, where it decides nothing: the same transition, as the source has it
behind its match. -/
def stepLast (layout : Layout) (state : Walking) (last : Instruction) : Walking :=
  let updated := update state.facts last layout state.justLost
  let after := { state with
    facts := updated.facts, traced := state.traced || updated.traced, justLost := updated.lost }
  if isCall last.flow then
    { after with compared := [], lost := none, forced := none, chain := none }
  else if last.writesFlags then after.absorb updated.next updated.chained
  else after

end Walking

structure Found where
  code : Nat
  lands : Nat
  site : Nat
  proved : Bool
  deriving DecidableEq, Repr

structure Run where
  out : List (Nat × Facts) := []
  cases : List Found := []
  table : Option Resolved := none
  unresolved : Option Nat := none
  capped : Bool := false
  traced : Bool := false
  untracked : List Nat := []
  blind : Nat := 0
  examined : Nat := 0
  deriving DecidableEq, Repr

def settledBy (decided : Option Bool) (last : Option Instruction) : Option Bool :=
  match last, decided with
  | some last, some zero =>
    if last.reads.isEmpty then
      match last.flow, last.condition with
      | .branch _, some .equal => some zero
      | .branch _, some .notEqual => some !zero
      | _, _ => none
    else none
  | _, _ => none

def isEquality : Option Condition → Bool
  | some .equal | some .notEqual => true
  | _ => false

/-- What a conditional branch recognises: cases, and tests on the code it cannot name. -/
def readBranch (state : Walking) (last : Instruction) (target next : Option Nat)
    (layout : Layout) : List Found × List Nat × Bool :=
  let committed := if isEquality last.condition then (state.lost <|> state.forced).toList else []
  let folded := foldedCompare state.facts last layout
  let readings := match folded.1 with
    | some reading => [reading]
    | none =>
      match last.condition with
      | some condition => state.compared.map fun was => (was, condition)
      | none => []
  let unread := if readings.isEmpty && last.condition.isNone &&
      branchesOnTheCode state.facts last then [last.address] else []
  let cases := readings.filterMap fun (was, condition) =>
    match condition, was.code with
    | .equal, some code =>
      target.map fun target => { code, lands := target, site := was.site, proved := was.proved }
    -- The branch is the rejection, so the case is what follows.
    | .notEqual, some code =>
      next.map fun next => { code, lands := next, site := was.site, proved := was.proved }
    | _, _ => none
  let unnamed := readings.filterMap fun (was, condition) =>
    if isEquality (some condition) && was.code.isNone && was.index.isSome then some was.site
    else none
  (cases, committed ++ unread ++ unnamed, folded.2)

def onward (compared : List Compared) (last : Option Instruction) :
    List Compared × List Compared :=
  let live := compared.filter fun was => !was.chained
  match last.map Instruction.flow, last.bind Instruction.condition with
  | some (.branch _), some condition =>
    (live.filter fun was => (equalitySurvives condition was.equality).1,
      live.filter fun was => (equalitySurvives condition was.equality).2)
  | _, _ => (live, live)

def owedBy (state : Walking) : Option Nat :=
  state.chain.bind fun _ => state.lost <|> state.forced <|>
    (state.compared.reverse.find? Compared.chained).map Compared.site

/-- The owed site is committed by a branch that reads these flags and is no equality, and
travels behind a terminator that reads none. -/
def settleOwed (state : Walking) (last : Option Instruction) : List Nat × Option Nat :=
  match owedBy state, last.map Instruction.flow, last.bind Instruction.condition with
  | none, _, _ => ([], state.lost <|> state.forced)
  | some _, some (.branch _), some .equal => ([], state.lost <|> state.forced)
  | some _, some (.branch _), some .notEqual => ([], state.lost <|> state.forced)
  | some site, some (.branch _), some _ => ([site], none)
  | some site, _, _ => ([], state.lost <|> state.forced <|> some site)

def bounding (state : Walking) (last : Option Instruction) : Option Bound :=
  match last.map Instruction.flow, last.bind Instruction.condition with
  | some (.branch target), some condition =>
    if condition = .unsignedAbove ∨ condition = .unsignedAboveOrEqual then
      (state.compared.filter fun was => !was.chained).findSome? fun was =>
        was.index.bind fun (register, offset, shift) =>
          was.bound.bind fun limit =>
            -- The register has to still hold what was compared.
            if state.facts.get register ≠ some (.code offset shift was.proved) then none
            else
              let limit := if condition = .unsignedAbove then some limit
                else if 1 ≤ limit then some (limit - 1) else none
              limit.map fun limit =>
                { register, offset, shift, limit, default := target, proved := was.proved }
    else none
  | _, _ => none

def takenBlock (blockAt : Nat → Option Nat) (last : Option Instruction) : Option Nat :=
  match last.map Instruction.flow with
  | some (.branch (some target)) => blockAt target
  | _ => none

/-- The facts on each edge, before the edge a settled branch excludes is taken away. -/
def edges (state : Walking) (last : Option Instruction) (successors : List Nat)
    (fallThrough : Option Nat) (blockAt : Nat → Option Nat) (lost : Option Nat) :
    List (Nat × Facts) :=
  let going := onward state.compared last
  let taken := takenBlock blockAt last
  match bounding state last with
  | some bound =>
    let carried := { state.facts with bound := none, pending := [], lost := none }
    (fallThrough.toList.map fun successor =>
      (successor, { carried with bound := some bound, pending := going.2, lost })) ++
    (bound.default.bind blockAt).toList.map fun successor =>
      (successor, { carried with pending := going.1, lost })
  | none => successors.map fun successor =>
      (successor, { state.facts with
        pending := if some successor = fallThrough then going.2
          else if some successor = taken then going.1 else going.1
        lost })

def deadEdge (settled : Option Bool) (fallThrough taken : Option Nat) : Option Nat :=
  match settled with
  | some true => fallThrough.filter fun fallen => some fallen ≠ taken
  | some false => taken.filter fun target => some target ≠ fallThrough
  | none => none

/-- What the terminator makes of the block: where the walk stands behind it, and what it
recognised. -/
def terminate (state : Walking) (settled : Option Bool) (front : List Instruction)
    (last : Instruction) (entry : Facts) (next : Option Nat) (layout : Layout)
    (reader : Option Reader) (inImage : Nat → Bool) : Walking × Run :=
  match last.flow with
  | .branch target =>
    -- A settled branch reads nothing about the control code.
    if settled.isSome then (state, {})
    else
      let read := readBranch state last target next layout
      ({ state with traced := state.traced || read.2.2 },
        { cases := read.1, untracked := read.2.1 })
  | .jmp none =>
    match followTable front last entry layout reader inImage with
    | .ok resolved => (state, { table := some resolved })
    | .error capped => (state, { unresolved := some last.address, capped })
  | _ => (state.stepLast layout last, {})

def isBlind (instruction : Instruction) : Bool :=
  instruction.flow == .unreadable || instruction.flow == .unknown

def walkBlock (instructions : List Instruction) (next : Option Nat) (successors : List Nat)
    (fallThrough : Option Nat) (blockAt : Nat → Option Nat) (entry : Facts) (layout : Layout)
    (reader : Option Reader) (inImage : Nat → Bool) : Run :=
  let start : Walking :=
    { facts := { entry with pending := [], lost := none }
      compared := entry.pending, lost := entry.lost }
  let front := instructions.dropLast
  let state := front.foldl (Walking.step layout) start
  let last := instructions.getLast?
  let settled := settledBy state.decided last
  let (state, found) := match last with
    | some last => terminate state settled front last entry next layout reader inImage
    | none => (state, {})
  let owed := settleOwed state last
  let dead := deadEdge settled fallThrough (takenBlock blockAt last)
  { found with
    out := (edges state last successors fallThrough blockAt owed.2).filter fun edge =>
      some edge.1 ≠ dead
    traced := state.traced
    untracked := found.untracked ++ owed.1
    blind := instructions.countP isBlind
    examined := instructions.length }

def simulate (index : Nat) (graph : Graph) (listing : List Instruction) (entry : Facts)
    (layout : Layout) (reader : Option Reader) (inImage : Nat → Bool) : Run :=
  let block := graph.blocks.getD index { start := 0, stop := 0 }
  let next := listing[block.stop]?.map Instruction.address
  let blockAt := fun address => (indexOf listing address).bind graph.holding
  walkBlock ((listing.take block.stop).drop block.start) next block.successors
    (next.bind blockAt) blockAt entry layout reader inImage

end WindbgMcp.Ioctl
