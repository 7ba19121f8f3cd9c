import WindbgMcp.Library.Collected
import WindbgMcp.Library.Utf8
import WindbgMcp.SkJoin.Pairing

/-! What the join decides of one VTL1 record: the VTL0 entry its call came from, the round trips
around it, and whether the two layers read the same where both read at all. -/
namespace WindbgMcp.SkJoin
open WindbgMcp.Library WindbgMcp.Correlate

/-- How a join ends without a result: it refuses its input, or it panics. -/
inductive Failure
  | refused (message : String)
  | panicked
  deriving DecidableEq, Repr

structure SequenceRange where
  first : Nat
  last : Nat
  deriving DecidableEq, Repr

structure Candidates where
  layer : Layer
  stage : Stage
  count : Nat
  sequenceRanges : List SequenceRange
  deriving DecidableEq, Repr

/-- Sorted numbers as the ranges they make, the range behind `first` so far ending at `last`. -/
def rangesFrom (first last : Nat) : List Nat → List SequenceRange
  | [] => [⟨first, last⟩]
  | sequence :: rest =>
    if last + 1 = sequence then rangesFrom first sequence rest
    else ⟨first, last⟩ :: rangesFrom sequence sequence rest

def Candidates.new (stage : Stage) (sequences : List Nat) : Candidates :=
  let sorted := sortedSet sequences
  { layer := stage.layer
    stage
    count := sorted.length
    sequenceRanges :=
      match sorted with
      | [] => []
      | first :: rest => rangesFrom first first rest }

inductive Decision
  | matched (event : EventId) (rule : String)
  | ambiguous (candidates : Candidates) (reason : String)
  | unmatched (reason : String)
  | unobserved (reason : String)
  deriving DecidableEq, Repr

def Decision.matched? : Decision → Option EventId
  | .matched event _ => some event
  | _ => none

structure Ctx where
  clock : Clock
  m4 : Option (LayerSummary × List M4Event)
  m5 : Option (LayerSummary × List RoundTrip)
  m5Events : Option (List M5Event)
  m6 : LayerSummary
  m6Entries : Nat
  /-- The VTL0 hits that can be of the selected service. -/
  m4Candidates : List M4Event

namespace Ctx

def relate (first second : Option Window) : WindowRelation :=
  match first, second with
  | some first, some second => first.relation second
  | _, _ => .unknown

def m4M6Relation (ctx : Ctx) : WindowRelation :=
  relate (ctx.m4.bind fun m4 => m4.1.window) ctx.m6.window

def m5M6Relation (ctx : Ctx) : WindowRelation :=
  relate (ctx.m5.bind fun m5 => m5.1.window) ctx.m6.window

end Ctx

def m4EventId (sequence : Nat) : EventId := ⟨.m4Vtl0, sequence, .m4Entry⟩

/-! ## The VTL0 entry -/

section M4
variable (ctx : Ctx)

def pool (claimed : List Nat) : List M4Event :=
  ctx.m4Candidates.filter fun event => !claimed.contains event.sequence

/-- A candidate in the order its clock proves: between the bounds, at one of them or without a
sample, or outside. -/
inductive Placed
  | strict
  | undecided
  | outside
  deriving DecidableEq, Repr

def M4Event.place (event : M4Event) (clock : Clock) (entryTick : Nat) (lower : Option Nat) :
    Placed :=
  match clock.tick event.hostQpc with
  | none => .undecided
  | some tick =>
    if tick < entryTick ∧ lower.all (fun lower => lower < tick) then .strict
    else if tick = entryTick ∨ lower = some tick then .undecided
    else .outside

def decideByPoint (record : M6Event) (lower : Option Nat) (claimed : List Nat) : Decision :=
  let pool := pool ctx claimed
  match ctx.clock.tick (record.entry.bind PhaseStamp.hostQpc) with
  | none =>
    .ambiguous (.new .m4Entry (pool.map M4Event.sequence))
      "the VTL1 entry carries no clock sample on the admitted frequency"
  | some entryTick =>
    let strict := pool.filter fun event => event.place ctx.clock entryTick lower == .strict
    let undecided := pool.filter fun event => event.place ctx.clock entryTick lower == .undecided
    let ambiguous : Decision :=
      .ambiguous (.new .m4Entry ((strict ++ undecided).map M4Event.sequence))
        (if (strict ++ undecided).any fun event => !event.selected then
          "a time-compatible VTL0 hit has unreadable classification fields, so it cannot be " ++
            "excluded or uniquely matched"
        else if strict.length > 1 then
          "several selected VTL0 entries lie between the previous VTL1 record and this VTL1 entry"
        else
          "a candidate's tick equals a boundary or carries no comparable sample, so its order " ++
            "is unproved")
    match strict, undecided with
    | [event], [] =>
      if event.selected then
        .matched (m4EventId event.sequence)
          ("the one selected VTL0 entry after the previous VTL1 record and before this VTL1 " ++
            "entry")
      else ambiguous
    | [], [] =>
      .unmatched
        ("no selected VTL0 entry lies after the previous VTL1 record and before this VTL1 entry")
    | _, _ => ambiguous

def ranked (summary : LayerSummary) : Bool :=
  (ctx.m4M6Relation == .contains || ctx.m4M6Relation == .containedBy) &&
    summary.completeRun && ctx.m6.completeRun

/-- The VTL0 entry by its rank, where the recording windows relate two complete runs. -/
def decideByRank (record : M6Event) (entryRank : Nat) (claimed : List Nat) :
    Except Failure (Decision × List Mark) :=
  let pool := pool ctx claimed
  let n4 := ctx.m4Candidates.length
  let n6 := ctx.m6Entries
  let contains := ctx.m4M6Relation == .contains
  let container := if contains then n4 else n6
  let contained := if contains then n6 else n4
  if container < contained then
    .ok
      (.ambiguous (.new .m4Entry (pool.map M4Event.sequence))
        "the contained window recorded more selected calls than the window containing it",
        [{ layer := none
           kind := .countMismatch
           sequence := some record.sequence
           detail := "the contained window recorded " ++ toString contained ++
             " selected calls where the containing one recorded " ++ toString container }])
  else
    let slack := container - contained
    if slack = 0 then
      -- The index of a rank no candidate has is out of bounds.
      match ctx.m4Candidates[entryRank]? with
      | none => .error .panicked
      | some event =>
        .ok
          (.matched (m4EventId event.sequence)
            ("rank: one complete run contains the other and both recorded the same number of " ++
              "selected calls"), [])
    else
      let first := if contains then entryRank else entryRank - slack
      let last := if contains then min (entryRank + slack) (n4 - 1) else min entryRank (n4 - 1)
      let sequences := ((List.range' first (last + 1 - first)).filterMap fun rank =>
        ctx.m4Candidates[rank]?.map M4Event.sequence).filter fun sequence =>
          !claimed.contains sequence
      .ok
        (.ambiguous (.new .m4Entry sequences)
          ("the containing window recorded " ++ toString slack ++
            " more selected calls than the contained one; the offset is unknown"), [])

/-- Decide the VTL0 entry of the chain of a record: `entryRank` records with an entry phase
precede it, no candidate lies before `lower`, and `claimed` are the entries of earlier chains. -/
def decideM4 (record : M6Event) (entryRank : Nat) (lower : Option Nat) (claimed : List Nat) :
    Except Failure (Decision × List Mark) :=
  let pool := pool ctx claimed
  let all (reason : String) : Except Failure (Decision × List Mark) :=
    .ok (.ambiguous (.new .m4Entry (pool.map M4Event.sequence)) reason, [])
  match ctx.m4 with
  | none => .ok (.unobserved "the VTL0 call trace was not part of this capture", [])
  | some (summary, _) =>
    if pool.isEmpty then
      .ok
        (.unmatched
          "the VTL0 trace holds no unclaimed secure-service entry of the selected service", [])
    else if ctx.clock.point then .ok (decideByPoint ctx record lower claimed, [])
    else if ctx.m4M6Relation = .disjoint then
      .ok
        (.unmatched
          ("the VTL0 and VTL1 traces recorded disjoint windows, so no call was seen by both"), [])
    else if pool.any fun event => !event.selected then
      all ("a potentially selected VTL0 hit has unreadable classification fields, so " ++
        "interval-only rank matching is not proved")
    else if ranked ctx summary then decideByRank ctx record entryRank claimed
    else
      match ctx.m4M6Relation with
      | .contains | .containedBy =>
        all ("one window contains the other but a trace is not a complete run (dropped, capped, " ++
          "gapped, missing a breakpoint or still armed)")
      | .overlap =>
        all ("the recording windows overlap without one containing the other, and the clock " ++
          "admits no point order")
      | _ =>
        all "no arm and drain brackets relate the two windows, and the clock admits no point order"

end M4

/-! ## The round trips -/

/-- What a round trip with no recorded return bounds. -/
inductive OpenBound
  | «until» (bound : Option Nat)
  | undecided
  deriving DecidableEq, Repr

inductive Placement
  | one (index : Nat)
  | none
  | several (indices : List Nat)
  deriving DecidableEq, Repr

def RoundTrip.place (trip : RoundTrip) (tick : Nat) (bound : OpenBound) : Placed :=
  match trip.callTick with
  | none => .undecided
  | some call =>
    if call > tick then .outside
    else if call = tick then .undecided
    else
      match trip.returnSequence, trip.returnTick with
      | none, _ =>
        match bound with
        | .undecided => .undecided
        | .until none => .strict
        | .until (some bound) => if tick ≤ bound then .strict else .outside
      | some _, none => .undecided
      | some _, some returned =>
        if returned > tick then .strict
        else if returned = tick then .undecided
        else .outside

def enclosing (trips : List RoundTrip) (tick : Option Nat) (bound : OpenBound) : Placement :=
  match tick with
  | none => if trips.isEmpty then .none else .several (List.range trips.length)
  | some tick =>
    let placed (place : Placed) : List Nat :=
      (trips.zipIdx.filter fun trip => trip.1.place tick bound == place).map Prod.snd
    match placed .strict, placed .undecided with
    | [index], [] => .one index
    | [], [] => .none
    | strict, undecided => .several (sortedSet (strict ++ undecided))

section M5
variable (ctx : Ctx)

def sequenceOf (stage : Stage) (trip : RoundTrip) : Option Nat :=
  match stage with
  | .m5VtlCall => some trip.callSequence
  | _ => trip.returnSequence

/-- Decide the round trip holding a VTL1 phase observed at `tick`; `stage` says whether the chain
wants its call or its return. -/
def decideM5 (tick : Option Nat) (stage : Stage) : Except Failure (Decision × Option Nat) :=
  match ctx.m5 with
  | none =>
    .ok (.unobserved "the hypervisor transition trace was not part of this capture", none)
  | some (summary, trips) =>
    match ctx.m5Events with
    | none => .error .panicked
    | some events =>
      if m5HasPairingBarrier events then do
        let kind : TransitionKind ← match stage with
          | .m5VtlCall => .ok .vtlCall
          | .m5VtlReturn => .ok .vtlReturn
          | _ => .error .panicked
        .ok
          (.ambiguous (.new stage ((events.filter fun event =>
              event.kind == kind || event.kind == .other).map M5Event.sequence))
            ("an unclassified hypervisor transition is a pairing barrier, so no call/return " ++
              "pairing across this trace is unique"), none)
      else if trips.isEmpty then
        .ok (.unmatched "the hypervisor trace holds no VTL0 call", none)
      else if !ctx.clock.point then
        if ctx.m5M6Relation = .disjoint then
          .ok (.unmatched "the hypervisor and VTL1 traces recorded disjoint windows", none)
        else
          .ok
            (.ambiguous (.new stage (trips.filterMap (sequenceOf stage)))
              "the clock admits no point order between the hypervisor and VTL1 workers", none)
      else
        let bound : OpenBound :=
          if summary.completeRun then .until (summary.window.map Window.outerTo) else .undecided
        match enclosing trips tick bound with
        | .one index =>
          match trips[index]? with
          | none => .error .panicked
          | some trip =>
            match sequenceOf stage trip with
            | some sequence =>
              .ok
                (.matched (m5EventId sequence stage)
                  "the one round trip enclosing the VTL1 phase", some index)
            | none =>
              .ok
                (.unmatched
                  "the round trip enclosing the VTL1 phase has no recorded VTL return",
                  some index)
        | .none => .ok (.unmatched "no recorded round trip encloses the VTL1 phase", none)
        | .several indices =>
          let candidates := Candidates.new stage
            (indices.filterMap fun index => trips[index]?.bind (sequenceOf stage))
          if candidates.count = 0 then
            .ok
              (.unmatched
                ("every round trip that could hold the VTL1 phase has no recorded VTL return"),
                none)
          else
            .ok
              (.ambiguous candidates
                (if tick.isNone then
                  "the VTL1 phase carries no clock sample on the admitted frequency"
                else
                  "a round-trip boundary equals the phase's tick, is unknown or carries no " ++
                    "comparable sample, so the enclosure is unproved"), none)

end M5

/-! ## The cross-checks -/

inductive CrossCheckResult
  | equal (value : String)
  | differs (m4 m6 : String)
  | notComparable (reason : String)
  deriving DecidableEq, Repr

structure CrossCheck where
  field : String
  result : CrossCheckResult
  deriving DecidableEq, Repr

def compareNumbers (m4 m6 : Option Nat) (reason : String) : CrossCheckResult :=
  match m4, m6 with
  | some left, some right =>
    if left = right then .equal (toString left) else .differs (toString left) (toString right)
  | _, _ => .notComparable reason

/-- `text[16..128]`, which is no text where one of the two is inside a character. -/
def blockOf (text : String) : Except Failure String :=
  match Utf8.slice text.toList 16 128 with
  | some block => .ok (Text.toAsciiLowercase (String.ofList block))
  | none => .error .panicked

def crossChecks (m4 : M4Event) (m6 : M6Event) : Except Failure (List CrossCheck) := do
  let service : CrossCheck :=
    ⟨"service", compareNumbers m4.service m6.service "a side did not read the service"⟩
  let kind : CrossCheck :=
    ⟨"transition_kind", compareNumbers m4.transitionKind m6.dispatchMode
      "the dispatch phase carries no dispatch_mode field or M4 did not read CL"⟩
  let block : CrossCheckResult ←
    match m4.argumentBlock, m6.requestBefore with
    | some block, some request =>
      if 128 ≤ Utf8.byteLen block.toList ∧ 128 ≤ Utf8.byteLen request.toList then do
        let left ← blockOf block
        let right ← blockOf request
        .ok (if left = right then .equal left else .differs left right)
      else .ok (.notComparable "a side did not retain 64 bytes of the block")
    | _, _ => .ok (.notComparable "a side did not retain 64 bytes of the block")
  .ok [service, kind, ⟨"argument_block[8..64]", block⟩]

end WindbgMcp.SkJoin
