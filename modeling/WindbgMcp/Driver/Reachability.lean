import WindbgMcp.Driver.Listing
import WindbgMcp.Library.Program
import WindbgMcp.Library.Text

/-! The breadth-first walk over the call graph, from the listing of the seed to the
listing that holds the target.  The disassembler, the jump-table resolver and the
halt poll are asked of the outside. -/
namespace WindbgMcp.Driver

open Library
open Walk (Halt)

inductive Query where
  | uf (arg : String)
  | resolveJump (block : List Instruction)
  | halt
deriving DecidableEq, Repr

abbrev Query.Answer : Query → Type
  | .uf _ => Option (List Instruction)
  | .resolveJump _ => JumpTables
  | .halt => Option Halt

instance (asked : Query) : DecidableEq asked.Answer :=
  match asked with
  | .uf _ => inferInstanceAs (DecidableEq (Option (List Instruction)))
  | .resolveJump _ => inferInstanceAs (DecidableEq JumpTables)
  | .halt => inferInstanceAs (DecidableEq (Option Halt))

/-- How the walk itself could go wrong: an `expect` that fails, or a path whose
reconstruction never ends. -/
inductive Fault where
  | panicked (why : String)
  | diverged
deriving DecidableEq, Repr

abbrev Walker := Program Query Query.Answer Fault

abbrev Happening := Event Query.Answer

abbrev Trace := List Happening

section Outside

variable {α : Type}

def uf (arg : String) : Walker (Option (List Instruction)) := .ask (.uf arg) .done

def resolveJump (block : List Instruction) : Walker JumpTables := .ask (.resolveJump block) .done

def halt : Walker (Option Halt) := .ask .halt .done

@[simp] theorem uf_bind (arg : String) (next : Option (List Instruction) → Walker α) :
    (uf arg >>= next) = .ask (.uf arg) next := rfl

@[simp] theorem resolveJump_bind (block : List Instruction) (next : JumpTables → Walker α) :
    (resolveJump block >>= next) = .ask (.resolveJump block) next := rfl

@[simp] theorem halt_bind (next : Option Halt → Walker α) :
    (halt >>= next) = .ask .halt next := rfl

end Outside

structure Hop where
  site : Nat
  kind : EdgeKind
  callee : Nat
deriving DecidableEq, Repr

structure Report where
  verdictReachable : Bool
  fromEntry : Option Nat
  seedStart : Option Nat
  target : Nat
  containingFn : Option Nat
  path : List Hop
  funcsExplored : Nat
  maxDepthSeen : Nat
  boundHit : Bool
  maxFunctions : Nat
  maxDepth : Nat
  halted : Option Halt
  blind : Nat
  tablesBounded : Bool
  unresolvedJumps : List Nat
deriving DecidableEq, Repr

/-- How a target was first found; `caller` is empty for the seed. -/
structure Parent where
  caller : Option Nat
  site : Nat
  kind : EdgeKind
deriving DecidableEq, Repr

abbrev Parents := List (Nat × Parent)

/-- The loop that walks the chain of parents, or nothing if it has not ended after
`fuel` turns. -/
def reconstructLoop (parent : Parents) : Nat → Option Nat → List Hop → Option (List Hop)
  | 0, _, _ => none
  | _ + 1, none, hops => some hops
  | fuel + 1, some token, hops =>
    match parent.lookup token with
    | none => some hops
    | some found =>
      reconstructLoop parent fuel found.caller (hops ++ [⟨found.site, found.kind, token⟩])

def reconstruct (parent : Parents) (token : Option Nat) : Walker (List Hop) :=
  match reconstructLoop parent (parent.length + 1) token [] with
  | some hops => .done hops.reverse
  | none => .unwind .diverged

structure Work where
  arg : String
  token : Option Nat
  depth : Nat
deriving DecidableEq, Repr

structure Search where
  visited : List Nat
  tablesByFn : List (Nat × JumpTables)
  enqueued : List Nat
  parent : Parents
  queue : List Work
  report : Report
deriving DecidableEq, Repr

def Search.schedule (token : Option Nat) (depth : Nat) (search : Search) (edge : Edge) : Search :=
  if edge.target ∈ search.enqueued then search
  else
    { search with
      enqueued := edge.target :: search.enqueued
      parent := (edge.target, ⟨token, edge.site, edge.kind⟩) :: search.parent
      queue := search.queue ++ [⟨Text.hex edge.target, some edge.target, depth + 1⟩] }

def Search.enter (entry startUsed : Nat) (work : Work) (search : Search) : Search :=
  let report := search.report
  let report := if work.token.isNone then
      { report with fromEntry := some entry, seedStart := some startUsed }
    else report
  { search with
    visited := startUsed :: search.visited
    report :=
      { report with
        funcsExplored := report.funcsExplored + 1
        maxDepthSeen := max report.maxDepthSeen work.depth } }

def lastPoll (report : Report) : Walker Report :=
  match report.halted with
  | some _ => pure report
  | none => do
    let halted ← halt
    pure { report with halted }

def succeed (parent : Parents) (token : Option Nat) (entry : Nat) (report : Report) :
    Walker Report := do
  let path ← reconstruct parent token
  lastPoll { report with verdictReachable := true, containingFn := some entry, path }

/-- Where the walk of a listing starts, with the walk that uses no tables.  Only the
seed falls back to the entry. -/
def probeFrom (block : List Instruction) (entry desired : Nat) (token : Option Nat) :
    Walker (Option (Nat × FnWalk)) :=
  match walkFunction block desired .default with
  | some walk => pure (some (desired, walk))
  | none =>
    if token.isSome then pure none
    else
      match walkFunction block entry .default with
      | some walk => pure (some (entry, walk))
      | none => .unwind (.panicked "entry is always an instruction")

def tablesOf (block : List Instruction) (entry : Nat) (search : Search) :
    Walker (JumpTables × Search) :=
  match search.tablesByFn.lookup entry with
  | some already => pure (already, search)
  | none => do
    let resolved ← resolveJump block
    pure (resolved, { search with tablesByFn := (entry, resolved) :: search.tablesByFn })

def Report.merge (report : Report) (tables : JumpTables) : Report :=
  { report with
    halted := if report.halted.isNone then tables.stopped else report.halted
    boundHit := report.boundHit || tables.bounded
    tablesBounded := report.tablesBounded || tables.bounded }

/-- The walk the verdict is about: the probe, or a second one across the tables if
the probe ended at an indirect jump. -/
def finalWalk (block : List Instruction) (entry start : Nat) (probe : FnWalk) (search : Search) :
    Walker (FnWalk × Search) :=
  if probe.unresolvedJumps.isEmpty then pure (probe, search)
  else do
    let (tables, search) ← tablesOf block entry search
    let search := { search with report := search.report.merge tables }
    match walkFunction block start tables with
    | some walk => pure (walk, search)
    | none => .unwind (.panicked "the first walk proved this is an instruction")

/-- What is asked: whether `target` is reachable from the function `seed` names, or
from the address inside it that it resolved to. -/
structure Question where
  seed : String
  seedStart : Option Nat
  target : Nat
  maxFunctions : Nat
  maxDepth : Nat
deriving DecidableEq, Repr

def exploreListing (question : Question) (block : List Instruction) (entry : Nat) (work : Work)
    (search : Search) : Walker (Search ⊕ Report) := do
  let desired := (work.token.or question.seedStart).getD entry
  match ← probeFrom block entry desired work.token with
  | none => pure (.inl search)
  | some (startUsed, probe) =>
    if startUsed ∈ search.visited then pure (.inl search)
    else do
      let search := search.enter entry startUsed work
      if question.target ∈ probe.reachable then do
        let report ← succeed search.parent work.token entry
          { search.report with blind := search.report.blind + probe.blind }
        pure (.inr report)
      else do
        let (walk, search) ← finalWalk block entry startUsed probe search
        let report := { search.report with
          blind := search.report.blind + walk.blind
          unresolvedJumps := search.report.unresolvedJumps ∪ walk.unresolvedJumps }
        if question.target ∈ walk.reachable then do
          let report ← succeed search.parent work.token entry report
          pure (.inr report)
        else
          pure (.inl (walk.external.foldl (Search.schedule work.token work.depth)
            { search with report }))

def turn (question : Question) (search : Search) : Walker (Search ⊕ Report) :=
  match search.queue with
  | [] => do
    let report ← lastPoll search.report
    pure (.inr report)
  | work :: queue => do
    let search := { search with queue }
    match ← halt with
    | some why => do
      let report ← lastPoll { search.report with halted := some why }
      pure (.inr report)
    | none =>
      if question.maxFunctions ≤ search.report.funcsExplored ∨ question.maxDepth < work.depth then
        pure (.inl { search with report := { search.report with boundHit := true } })
      else do
        match ← uf work.arg with
        | none => pure (.inl search)
        | some block =>
          match block.head? with
          | none => pure (.inl search)
          | some first => exploreListing question block first.address work search

def Search.Below (maxFunctions : Nat) (after before : Search) : Prop :=
  maxFunctions - after.report.funcsExplored < maxFunctions - before.report.funcsExplored ∨
    maxFunctions - after.report.funcsExplored = maxFunctions - before.report.funcsExplored ∧
      after.queue.length < before.queue.length

instance (maxFunctions : Nat) : DecidableRel (Search.Below maxFunctions) :=
  fun _ _ => inferInstanceAs (Decidable (_ ∨ _))

theorem Search.below_wf (maxFunctions : Nat) : WellFounded (Search.Below maxFunctions) := by
  refine Subrelation.wf ?_ (InvImage.wf
    (fun search : Search => (maxFunctions - search.report.funcsExplored, search.queue.length))
    (Prod.lex Nat.lt_wfRel Nat.lt_wfRel).wf)
  intro after before h
  exact Prod.lex_def.mpr h

def Question.initial (question : Question) : Search where
  visited := []
  tablesByFn := []
  enqueued := []
  parent := []
  queue := [⟨question.seed, none, 0⟩]
  report :=
    { verdictReachable := false
      fromEntry := none
      seedStart := none
      target := question.target
      containingFn := none
      path := []
      funcsExplored := 0
      maxDepthSeen := 0
      boundHit := false
      maxFunctions := question.maxFunctions
      maxDepth := question.maxDepth
      halted := none
      blind := 0
      tablesBounded := false
      unresolvedJumps := [] }

def reachability (question : Question) : Walker Report :=
  Program.loop (Search.Below question.maxFunctions) (Search.below_wf question.maxFunctions)
    .diverged (turn question) question.initial

end WindbgMcp.Driver
