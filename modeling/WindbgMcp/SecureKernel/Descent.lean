import WindbgMcp.Library.Spans
import WindbgMcp.SecureKernel.Paging

/-! Physical reads in chunks of the source's width, and the guarded four-level descent
over them.  The reader's own counters are left out: no decode reads them. -/
namespace WindbgMcp.SecureKernel
open Library

inductive ReadFailure
  | refused (detail : String)
  | notPresent
  | sourceError (detail : String)
  | short (got want : Nat)
  deriving DecidableEq, Repr

/-- A byte source for one guest's physical memory.  It may fail on any chunk, and a
chunk it answers is the memory's. -/
structure Source where
  memory : Nat → UInt8
  /-- The most this source will transfer in one call. -/
  maxRead : Nat
  readChunk : (gpa length : Nat) → Except ReadFailure (List UInt8)
  faithful : ∀ gpa length bytes, readChunk gpa length = .ok bytes →
    bytes = (List.range length).map fun i => memory (offset gpa i)

namespace Source

/-- The chunks from `done` on. -/
def readFrom (source : Source) (gpa done remaining : Nat) : Except ReadFailure (List UInt8) :=
  if remaining = 0 then .ok []
  else
    let take := min (max source.maxRead 1) remaining
    match source.readChunk (offset gpa done) take with
    | .error failure => .error failure
    | .ok chunk => (chunk ++ ·) <$> source.readFrom gpa (done + take) (remaining - take)
termination_by remaining

/-- `length` bytes at `gpa`, whole or not at all. -/
def read (source : Source) (gpa length : Nat) : Except ReadFailure (List UInt8) :=
  source.readFrom gpa 0 length

end Source

def words (bytes : List UInt8) : List Nat :=
  (List.range (bytes.length / 8)).map fun i => LittleEndian.slice bytes (8 * i) 8

structure Leaf where
  va : Nat
  gpa : Nat
  size : Nat
  deriving DecidableEq, Repr

inductive Budget
  | tableReads (limit : Nat)
  | leaves (limit : Nat)
  deriving DecidableEq, Repr

inductive Incomplete
  | budget (which : Budget)
  | unreadableTables (count : Nat)
  deriving DecidableEq, Repr

structure WalkStats where
  tableReads : Nat := 0
  tablesDecoded : Nat := 0
  /-- Prefixes not expanded because the table was already expanded at this level. -/
  aliasPrefixesSkipped : Nat := 0
  malformedEntries : Nat := 0
  unreadableTables : Nat := 0
  leaves : Nat := 0
  incomplete : Option Incomplete := none
  deriving DecidableEq, Repr

def WalkStats.complete (stats : WalkStats) : Bool := stats.incomplete.isNone

structure Budgets where
  tableReads : Nat := 20000
  leaves : Nat := 200000
  deriving DecidableEq, Repr

structure Descent where
  leaves : List Leaf := []
  stats : WalkStats := {}
  visited : Nat → List Nat := fun _ => []
  cache : Nat → Option (Option (List Nat)) := fun _ => none

namespace Descent

section
variable (source : Source) (budgets : Budgets)

def stop (state : Descent) (why : Incomplete) : Descent :=
  { state with stats := { state.stats with incomplete := some why } }

def visit (state : Descent) (level table : Nat) : Descent :=
  { state with visited := Function.update state.visited level (table :: state.visited level) }

def push (state : Descent) (leaf : Leaf) : Descent :=
  { state with leaves := state.leaves ++ [leaf] }

def skipAlias (state : Descent) : Descent :=
  { state with
    stats := { state.stats with aliasPrefixesSkipped := state.stats.aliasPrefixesSkipped + 1 } }

def skipMalformed (state : Descent) : Descent :=
  { state with
    stats := { state.stats with malformedEntries := state.stats.malformedEntries + 1 } }

def decode (state : Descent) : Descent :=
  { state with stats := { state.stats with tablesDecoded := state.stats.tablesDecoded + 1 } }

def table (state : Descent) (gpa : Nat) : Descent × Option (List Nat) :=
  match state.cache gpa with
  | some cached => (state, cached)
  | none =>
    if state.stats.tableReads ≥ budgets.tableReads then
      (state.stop (.budget (.tableReads budgets.tableReads)), none)
    else
      let read := { state.stats with tableReads := state.stats.tableReads + 1 }
      match source.read gpa pageSize with
      | .ok page =>
        let entries := some (words page)
        ({ state with stats := read, cache := Function.update state.cache gpa (some entries) },
          entries)
      | .error _ =>
        ({ state with
            stats := { read with unreadableTables := read.unreadableTables + 1 }
            cache := Function.update state.cache gpa (some none) }, none)

/-- The entries of one table from `index` on; `descend` expands the tables they name. -/
def expand (descend : Descent → Nat → Nat → Descent) (table level va : Nat) :
    List Nat → (index : Nat) → Descent → Descent
  | [], _, state => state
  | entry :: entries, index, state =>
    match decodeEntry entry level with
    | none => expand descend table level va entries (index + 1) state
    | some decoded =>
      if decoded.malformed then
        expand descend table level va entries (index + 1) state.skipMalformed
      else
        let child := va ||| index <<< (39 - 9 * level)
        match decoded.kind with
        | .leaf =>
          if state.leaves.length ≥ budgets.leaves then
            state.stop (.budget (.leaves budgets.leaves))
          else
            expand descend table level va entries (index + 1)
              (state.push ⟨canonical child, decoded.address, decoded.size⟩)
        | .table =>
          -- The self-map, and any other cycle of one.
          if decoded.address = page table then
            expand descend table level va entries (index + 1) state
          else
            let state := descend state decoded.address child
            if state.stats.incomplete.isSome then state
            else expand descend table level va entries (index + 1) state

/-- `levels` counts the levels from this table's down; the descent has no table under a
page table, whose entries are all leaves. -/
def descend : (levels : Nat) → Descent → (table va : Nat) → Descent
  | 0, state, _, _ => state
  | below + 1, state, table, va =>
    let level := 3 - below
    if state.stats.incomplete.isSome then state
    else if table ∈ state.visited level then state.skipAlias
    else
      let read := (state.visit level table).table source budgets table
      match read.2 with
      | none => read.1
      | some entries => expand budgets (descend below) table level va entries 0 read.1.decode

end

end Descent

/-- A guarded four-level descent from `root`. -/
def walkWithin (source : Source) (root : Nat) (budgets : Budgets) : List Leaf × WalkStats :=
  let state := Descent.descend source budgets 4 {} (page root) 0
  let stats := { state.stats with leaves := state.leaves.length }
  (state.leaves,
    if stats.incomplete.isNone && stats.unreadableTables > 0 then
      { stats with incomplete := some (.unreadableTables stats.unreadableTables) }
    else stats)

def walk (source : Source) (root : Nat) : List Leaf × WalkStats :=
  walkWithin source root {}

end WindbgMcp.SecureKernel
