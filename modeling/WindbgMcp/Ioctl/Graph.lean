import WindbgMcp.Ioctl.Facts
import WindbgMcp.Library.Collected

/-! A function's listing as blocks and edges. -/
namespace WindbgMcp.Ioctl
open Driver (Flow)
open Library (lastPlace sortedSet)

structure Block where
  start : Nat
  stop : Nat
  successors : List Nat := []
  deriving DecidableEq, Repr

structure Graph where
  blocks : List Block
  byInstruction : List Nat
  deriving DecidableEq, Repr

def Graph.holding (graph : Graph) (index : Nat) : Option Nat := graph.byInstruction[index]?

def indexOf (listing : List Instruction) (address : Nat) : Option Nat :=
  (lastPlace (fun instruction => instruction.address == address) listing).map Fin.val

def endsABlock : Flow → Bool
  | .branch _ | .jmp _ | .ret | .trap | .unreadable | .unknown => true
  | .call _ | .fallthrough => false

def directTarget : Flow → Option Nat
  | .branch target | .jmp target => target
  | _ => none

/-- Where the blocks start: the entry, every target inside the listing, and behind every
instruction that ends a block. -/
def blockStarts (listing : List Instruction) : List Nat :=
  let targets := listing.filterMap fun instruction =>
    (directTarget instruction.flow).bind (indexOf listing)
  let behind := listing.zipIdx.filterMap fun entry =>
    if endsABlock entry.1.flow ∧ entry.2 + 1 < listing.length then some (entry.2 + 1) else none
  (List.range (max listing.length 1)).filter fun index =>
    index == 0 || index ∈ targets || index ∈ behind

def blockBounds (length : Nat) : List Nat → List Block
  | [] => []
  | [start] => [{ start, stop := length }]
  | start :: next :: starts => { start, stop := next } :: blockBounds length (next :: starts)

def successorsOf (listing : List Instruction) (blocks : List Block) (byInstruction : List Nat)
    (block : Block) : List Nat :=
  let reach := fun target => ((target.bind (indexOf listing)).bind fun index =>
    blocks.findIdx? fun other => other.start == index).toList
  let next := if block.stop < listing.length then (byInstruction[block.stop]?).toList else []
  match (if block.stop = 0 then none else listing[block.stop - 1]?) with
  | none => []
  | some last => sortedSet <|
    match last.flow with
    | .branch target => reach target ++ next
    | .jmp target => reach target
    | .call _ | .fallthrough => next
    | .ret | .trap | .unreadable | .unknown => []

def graph (listing : List Instruction) : Graph :=
  let blocks := blockBounds listing.length (blockStarts listing)
  let byInstruction := (blocks.zipIdx.map fun entry =>
    List.replicate (entry.1.stop - entry.1.start) entry.2).flatten
  { blocks := blocks.map fun block =>
      { block with successors := successorsOf listing blocks byInstruction block }
    byInstruction }

/-- The depth-first walk behind `walk_order`: blocks come out as their last successor is
done, so the list grows in the order the source leaves it in after reversing. -/
def Graph.finish (graph : Graph) :
    (fuel : Nat) → List (Nat × Nat) → List Nat → List Nat → List Nat × List Nat
  | 0, _, seen, order => (seen, order)
  | _ + 1, [], seen, order => (seen, order)
  | fuel + 1, (block, next) :: stack, seen, order =>
    match (graph.blocks[block]?.bind fun block => block.successors[next]?) with
    | some successor =>
      if successor ∈ seen then graph.finish fuel ((block, next + 1) :: stack) seen order
      else graph.finish fuel ((successor, 0) :: (block, next + 1) :: stack)
        (successor :: seen) order
    | none => graph.finish fuel stack seen (block :: order)

def Graph.effort (graph : Graph) : Nat :=
  (graph.blocks.map fun block => block.successors.length + 1).sum + 1

def Graph.walkOrder (graph : Graph) : List Nat :=
  if graph.blocks.isEmpty then []
  else
    let walked := graph.finish graph.effort [(0, 0)] [0] []
    walked.2 ++ (List.range graph.blocks.length).filter fun block => block ∉ walked.1

end WindbgMcp.Ioctl
