import Mathlib.Algebra.Order.Ring.Nat
import WindbgMcp.Driver.Listing
import WindbgMcp.Library.Program

/-! The bounded decode of an image's executable sections (`codewalk.rs`).  The decoder,
the halt poll and the visitor are asked of the outside, so that each may keep a state of
its own. -/
namespace WindbgMcp.CodeWalk
open WindbgMcp.Library WindbgMcp.Library.Program
open WindbgMcp.Walk (Halt)

def u64Max : Nat := 2 ^ 64 - 1

def saturatingAdd (value other : Nat) : Nat := min (value + other) u64Max

structure Section where
  name : String
  rva : Nat
  virtualSize : Nat

/-- What the walk reads of an image; `codeSections` are its executable sections. -/
structure Image where
  base : Nat
  sizeOfImage : Nat
  codeSections : List Section

/-- A decoded instruction; `bytes` is its encoding in hexadecimal pairs. -/
structure Instruction where
  address : Nat
  bytes : String
  deriving DecidableEq, Repr

def instructionLen (instruction : Instruction) : Nat := instruction.bytes.utf8ByteSize / 2

structure Scanned where
  name : String
  start : Nat
  bytes : Nat
  deriving DecidableEq, Repr

structure Covered where
  scanned : List Scanned := []
  unreadable : List Scanned := []
  halted : Option Halt := none
  capHit : Bool := false
  deriving DecidableEq, Repr

inductive Step
  | atInstruction (instruction : Instruction) (name : String)
  | breaks
  deriving DecidableEq, Repr

inductive Query
  | halt
  | decode (address want : Nat)
  | visit (step : Step)
  deriving DecidableEq, Repr

@[reducible] def Answer : Query → Type
  | .halt => Option Halt
  | .decode _ _ => Option (List Instruction)
  | .visit _ => Unit

abbrev Walking (α : Type) := Program Query Answer Unit α

def maxScanBytes : Nat := 4 * 1024 * 1024

def maxRanges : Nat := 256

def windowBytes : Nat := 64 * 1024

def page : Nat := 0x1000

def maxInstruction : Nat := 16

namespace Covered

def rows (covered : Covered) : Nat := covered.scanned.length + covered.unreadable.length

def miss (covered : Covered) (range : Scanned) : Covered :=
  { covered with unreadable := covered.unreadable ++ [range] }

end Covered

/-- Where the walk stands inside a section: the run it is in, if it is in one, and where
a window that would not read ends while it is retried. -/
structure Cursor where
  covered : Covered
  budget : Nat
  position : Nat
  run : Option (Nat × Nat) := none
  retryingUntil : Option Nat := none
  deriving DecidableEq, Repr

namespace Cursor

def close (cursor : Cursor) (name : String) : Cursor :=
  match cursor.run with
  | some (start, bytes) =>
    if bytes > 0 then
      { cursor with
        covered :=
          { cursor.covered with
            scanned := cursor.covered.scanned ++ [⟨name, start, bytes⟩] }
        run := none }
    else { cursor with run := none }
  | none => cursor

def retrying (cursor : Cursor) : Bool := cursor.retryingUntil.any fun stop => cursor.position < stop

def restOfPage (cursor : Cursor) : Nat :=
  saturatingAdd (cursor.position ||| (page - 1)) 1 - cursor.position

/-- How much the next decode may ask for: a window, or what is left of the page while a
window is retried, with the next page behind a tail too short for an instruction. -/
def window (cursor : Cursor) : Nat :=
  if cursor.retrying then
    if cursor.restOfPage < maxInstruction then cursor.restOfPage + page else cursor.restOfPage
  else windowBytes

def want (cursor : Cursor) (stop : Nat) : Nat :=
  min (min cursor.window (stop - cursor.position)) cursor.budget

def skip (cursor : Cursor) (name : String) (want : Nat) : Cursor :=
  let cursor := cursor.close name
  { cursor with
    covered := cursor.covered.miss ⟨name, cursor.position, want⟩
    position := saturatingAdd cursor.position want
    budget := cursor.budget - want }

def abandon (cursor : Cursor) (name : String) (stop : Nat) : Cursor :=
  let cursor := cursor.close name
  { cursor with covered := cursor.covered.miss ⟨name, cursor.position, stop - cursor.position⟩ }

/-- Past the last whole instruction, which ended at `next`. -/
def advance (cursor : Cursor) (want next : Nat) : Cursor :=
  let taken := min (next - cursor.position) want
  { cursor with
    run :=
      match cursor.run with
      | some (start, bytes) => some (start, bytes + taken)
      | none => some (cursor.position, taken)
    budget := cursor.budget - taken
    position := next }

def capped (cursor : Cursor) (name : String) : Cursor :=
  { cursor with covered := { cursor.covered with capHit := true } }.close name

def haltedBy (cursor : Cursor) (name : String) (why : Halt) : Cursor :=
  { cursor with covered := { cursor.covered with halted := some why } }.close name

end Cursor

def visitAll (name : String) : List Instruction → Walking Unit
  | [] => .done ()
  | instruction :: rest => .ask (.visit (.atInstruction instruction name)) fun _ => visitAll name rest

/-- How a section ends: it was walked to its end or given up, or the whole walk stops. -/
structure Ended where
  cursor : Cursor
  stopped : Bool
  deriving DecidableEq, Repr

def takeBlock (name : String) (stop : Nat) (cursor : Cursor) (block : List Instruction)
    (last : Instruction) : Walking (Cursor ⊕ Ended) := do
  visitAll name block
  let next := saturatingAdd last.address (instructionLen last)
  if next - cursor.position = 0 then .done (.inr ⟨cursor.abandon name stop, false⟩)
  else .done (.inl (cursor.advance (cursor.want stop) next))

/-- One turn of the loop over a section's windows. -/
def windowTurn (name : String) (stop : Nat) (cursor : Cursor) : Walking (Cursor ⊕ Ended) :=
  if cursor.position < stop then
    .ask .halt fun halted =>
      match halted with
      | some why => .done (.inr ⟨cursor.haltedBy name why, true⟩)
      | none =>
        if cursor.budget = 0 then .done (.inr ⟨cursor.capped name, true⟩)
        else if cursor.covered.rows ≥ maxRanges then .done (.inr ⟨cursor.capped name, true⟩)
        else
          .ask (.decode cursor.position (cursor.want stop)) fun decoded =>
            match decoded with
            | none =>
              if !cursor.retrying && cursor.want stop > max cursor.restOfPage maxInstruction then
                .done (.inl { cursor with
                  retryingUntil := some (saturatingAdd cursor.position (cursor.want stop)) })
              else
                .ask (.visit .breaks) fun _ =>
                  .done (.inl (cursor.skip name (cursor.want stop)))
            | some [] =>
              .ask (.visit .breaks) fun _ => .done (.inr ⟨cursor.abandon name stop, false⟩)
            | some (first :: rest) =>
              takeBlock name stop cursor (first :: rest) ((first :: rest).getLast (by simp))
  else .done (.inr ⟨cursor, false⟩)

def Cursor.left (stop : Nat) (cursor : Cursor) : Nat :=
  2 * (stop - cursor.position) + if cursor.retrying then 0 else 1

def walkWindows (name : String) (stop : Nat) (cursor : Cursor) : Walking Ended :=
  loop (fun next cursor : Cursor => next.left stop < cursor.left stop)
    (InvImage.wf (Cursor.left stop) Nat.lt_wfRel.wf) () (windowTurn name stop) cursor

/-- What the loop over the sections carries; `past` is the end of what was walked. -/
structure Walked where
  covered : Covered
  budget : Nat
  past : Nat

section
variable (image : Image) (checkedVa : Nat → Nat → Option Nat)

def outside (entry : Section) (covered : Covered) : Covered :=
  covered.miss ⟨entry.name, saturatingAdd image.base image.sizeOfImage, entry.virtualSize⟩

def clamp (entry : Section) (start : Nat) (covered : Covered) : Nat × Covered :=
  match checkedVa entry.rva entry.virtualSize with
  | some _ => (saturatingAdd start entry.virtualSize, covered)
  | none =>
    let inside := image.sizeOfImage - entry.rva
    (saturatingAdd start inside,
      covered.miss ⟨entry.name, saturatingAdd start inside, entry.virtualSize - inside⟩)

def walkSections : List Section → Walked → Walking Covered
  | [], walked => .done walked.covered
  | entry :: rest, walked =>
    if walked.covered.rows ≥ maxRanges then .done { walked.covered with capHit := true }
    else
      match checkedVa entry.rva 0 with
      | none => walkSections rest { walked with covered := outside image entry walked.covered }
      | some start =>
        let (stop, covered) := clamp image checkedVa entry start walked.covered
        .ask (.visit .breaks) fun _ => do
          let ended ← walkWindows entry.name stop
            { covered, budget := walked.budget, position := max start walked.past }
          if ended.stopped then .done ended.cursor.covered
          else
            let cursor := ended.cursor.close entry.name
            walkSections rest ⟨cursor.covered, cursor.budget, max walked.past stop⟩

def walkCode : Walking Covered :=
  walkSections image checkedVa
    (image.codeSections.mergeSort fun entry other => decide (entry.rva ≤ other.rva))
    ⟨{}, maxScanBytes, 0⟩

end

end WindbgMcp.CodeWalk
