import WindbgMcp.Library.Fallible
import WindbgMcp.SkJoin.Decisions

/-! The join: one chain per VTL1 record, in the order of their sequence numbers, and what no chain
claimed. -/
namespace WindbgMcp.SkJoin
open WindbgMcp.Library WindbgMcp.Correlate

structure Stages where
  m4Entry : Decision
  m5VtlCall : Decision
  m6Entry : Decision
  m6Dispatch : Decision
  m6Return : Decision
  m5VtlReturn : Decision
  deriving DecidableEq, Repr

def Stages.each (stages : Stages) : List (Stage × Decision) :=
  [(.m4Entry, stages.m4Entry), (.m5VtlCall, stages.m5VtlCall), (.m6Entry, stages.m6Entry),
    (.m6Dispatch, stages.m6Dispatch), (.m6Return, stages.m6Return),
    (.m5VtlReturn, stages.m5VtlReturn)]

inductive ChainVerdict
  | complete
  | provisional
  | incomplete
  deriving DecidableEq, Repr

structure Chain where
  callId : Option String
  m6Sequence : Nat
  service : Option Nat
  status : Option Nat
  stages : Stages
  nestedRoundTrips : Option Nat
  roundTripsBeforeEntry : Option Nat
  crossChecks : List CrossCheck
  verdict : ChainVerdict
  reasons : List String
  deriving DecidableEq, Repr

structure Ambiguity where
  m6Sequence : Nat
  stage : Stage
  candidates : Candidates
  reason : String
  deriving DecidableEq, Repr

inductive JoinVerdict
  | complete
  | provisional
  | incomplete
  deriving DecidableEq, Repr

structure JoinLayers where
  m4Vtl0 : Option (LayerSource M4Trace)
  m5Hypervisor : Option (LayerSource M5Trace)
  m6Vtl1 : LayerSource M6Trace

structure JoinInput where
  schema : String
  identity : CaptureIdentity
  clock : ClockAdmission
  selectedService : Nat
  secureCallKind : Nat := 2
  expectedSelectedCalls : Option Nat := none
  layers : JoinLayers

def joinInputSchema : String := "windbg-mcp.sk-correlation-join-input.v1"

structure JoinedCapture where
  roundTrips : List RoundTrip
  chains : List Chain
  unmatched : List Unmatched
  ambiguous : List Ambiguity
  marks : List Mark
  verdict : JoinVerdict
  reasons : List String
  deriving DecidableEq, Repr

/-- What the pass over the VTL1 records carries from one to the next. -/
structure Pass where
  chains : List Chain := []
  unmatched : List Unmatched
  ambiguous : List Ambiguity := []
  marks : List Mark
  /-- The VTL0 entries earlier chains matched. -/
  claimed : List Nat := []
  /-- How many of the records so far have an entry phase. -/
  entryRank : Nat := 0
  lower : Option Nat

structure Decided where
  m4Entry : Decision
  m5VtlCall : Decision
  m5VtlReturn : Decision
  nested : Option Nat := none
  beforeEntry : Option Nat := none
  checks : List CrossCheck := []
  reasons : List String := []
  marks : List Mark := []

section Records
variable (ctx : Ctx)

/-- The round trips of the entry and of the return, where the two are not out of order. -/
def orderTrips (record : M6Event) (call returned : Decision × Option Nat) :
    Decision × Decision × Option Nat × List String × List Mark :=
  match call.2, returned.2 with
  | some callIndex, some returnIndex =>
    if returnIndex < callIndex then
      let withdrawn : Decision :=
        .unmatched "withdrawn: the enclosing round trips are out of order"
      (withdrawn, withdrawn, none,
        ["the hypervisor round trips contradict the VTL1 phase order"],
        [{ layer := some .m5Hypervisor
           kind := .orderContradiction
           sequence := some record.sequence
           detail := "the round trip enclosing the VTL1 return precedes the one enclosing its " ++
             "entry" }])
    else (call.1, returned.1, some (returnIndex - callIndex), [], [])
  | _, _ => (call.1, returned.1, none, [], [])

def eventOf (events : List M4Event) (matched : EventId) : Option M4Event :=
  events.find? fun event => event.sequence == matched.sequence

/-- How many round trips began between the matched VTL0 entry and the one that delivered it. -/
def countBefore (record : M6Event) (m4Entry : Decision) (callIndex : Option Nat) :
    Except Failure (Option Nat × List String × List Mark) :=
  match callIndex, m4Entry.matched?, ctx.m4, ctx.m5 with
  | some callIndex, some matched, some (_, events), some (_, trips) =>
    match (eventOf events matched).bind fun event => ctx.clock.tick event.hostQpc with
    | none => .ok (none, [], [])
    | some m4Tick =>
      match trips[callIndex]? with
      | none => .error .panicked
      | some delivering =>
        if delivering.callTick.any fun tick => tick < m4Tick then
          .ok
            (none, ["the VTL0 entry follows the round trip that delivered its VTL1 entry"],
              [{ layer := none
                 kind := .orderContradiction
                 sequence := some record.sequence
                 detail := "the round trip delivering the VTL1 entry precedes the matched VTL0 " ++
                   "entry" }])
        else
          .ok
            (some ((trips.take callIndex).countP fun trip =>
              trip.callTick.any fun tick => m4Tick < tick), [], [])
  | _, _, _, _ => .ok (none, [], [])

def checkMatched (record : M6Event) (m4Entry : Decision) : Except Failure (List CrossCheck) :=
  match m4Entry.matched?, ctx.m4 with
  | some matched, some (_, events) =>
    match eventOf events matched with
    | some event => crossChecks event record
    | none => .ok []
  | _, _ => .ok []

/-- A complete record: the entry, the round trips, and the cross-checks of what was matched. -/
def decideComplete (record : M6Event) (entryRank : Nat) (lower : Option Nat)
    (claimed : List Nat) : Except Failure Decided := do
  let m4 ← decideM4 ctx record entryRank lower claimed
  let call ← decideM5 ctx (ctx.clock.tick (record.entry.bind PhaseStamp.hostQpc)) .m5VtlCall
  let returned ← decideM5 ctx (ctx.clock.tick (record.returned.bind PhaseStamp.hostQpc))
    .m5VtlReturn
  let ordered := orderTrips record call returned
  let before ← countBefore ctx record m4.1 call.2
  let checks ← checkMatched ctx record m4.1
  .ok
    { m4Entry := m4.1
      m5VtlCall := ordered.1
      m5VtlReturn := ordered.2.1
      nested := ordered.2.2.1
      beforeEntry := before.1
      checks
      reasons := ordered.2.2.2.1 ++ before.2.1
      marks := m4.2 ++ ordered.2.2.2.2 ++ before.2.2 }

/-- An incomplete record has no bounds to decide by. -/
def decideIncomplete (record : M6Event) : Decided :=
  let withheld (what : String) : Decision :=
    .unmatched ("not decided: the VTL1 record is incomplete, so " ++ what ++
      " has no proved bound")
  let hypervisor (what : String) : Decision :=
    if ctx.m5.isSome then withheld what
    else .unobserved "the hypervisor transition trace was not part of this capture"
  { m4Entry :=
      if ctx.m4.isSome then withheld "the VTL0 entry"
      else .unobserved "the VTL0 call trace was not part of this capture"
    m5VtlCall := hypervisor "the VTL call"
    m5VtlReturn := hypervisor "the VTL return"
    reasons := ["the VTL1 record is incomplete (" ++ record.why ++ ")"] }

def M6Event.lastStage (record : M6Event) : Option Stage :=
  record.returned.map (fun _ => .m6Return) <|> record.dispatch.map (fun _ => .m6Dispatch) <|>
    record.entry.map fun _ => .m6Entry

def m6Stage (record : M6Event) (phase : Option PhaseStamp) (stage : Stage) : Decision :=
  match phase with
  | some _ =>
    .matched ⟨.m6Vtl1, record.sequence, stage⟩
      "observed by the VTL1 service trace in this record"
  | none =>
    .unmatched ("the record ends at its " ++ debugOption Stage.debug record.lastStage ++
      " phase (" ++ record.why ++ ")")

def stageReasons (stage : Stage) : Decision → List String
  | .matched .. => []
  | .ambiguous _ reason => [stage.debug ++ " is ambiguous: " ++ reason]
  | .unmatched reason => [stage.debug ++ " is unmatched: " ++ reason]
  | .unobserved reason =>
    if stage = .m4Entry then [] else [stage.debug ++ " was not observed: " ++ reason]

def stageAmbiguous (sequence : Nat) (stage : Stage) : Decision → List Ambiguity
  | .ambiguous candidates reason => [⟨sequence, stage, candidates, reason⟩]
  | _ => []

def stageUnmatched (sequence : Nat) (stage : Stage) : Decision → List Unmatched
  | .unmatched reason => [{ m6Sequence := some sequence, stage := some stage, reason }]
  | _ => []

def checkReasons (check : CrossCheck) : List String :=
  match check.result with
  | .differs m4 m6 =>
    ["cross-check " ++ check.field ++ " differs: VTL0 read " ++ m4 ++ ", VTL1 read " ++ m6]
  | _ => []

def Decision.isUnobserved : Decision → Bool
  | .unobserved _ => true
  | _ => false

def chainOf (captureId : String) (record : M6Event) (decided : Decided) : Chain :=
  let stages : Stages :=
    { m4Entry := decided.m4Entry
      m5VtlCall := decided.m5VtlCall
      m6Entry := m6Stage record record.entry .m6Entry
      m6Dispatch := m6Stage record record.dispatch .m6Dispatch
      m6Return := m6Stage record record.returned .m6Return
      m5VtlReturn := decided.m5VtlReturn }
  let reasons := decided.reasons ++
    (stages.each.flatMap fun stage => stageReasons stage.1 stage.2) ++
    decided.checks.flatMap checkReasons
  let verdict : ChainVerdict :=
    if !reasons.isEmpty then .incomplete
    else if stages.m4Entry.isUnobserved then .provisional
    else .complete
  { callId :=
      if verdict ≠ .incomplete then some (captureId ++ ":call:" ++ toString record.sequence)
      else none
    m6Sequence := record.sequence
    service := record.service
    status := record.status
    stages
    nestedRoundTrips := decided.nested
    roundTripsBeforeEntry := decided.beforeEntry
    crossChecks := decided.checks
    verdict
    reasons }

def latestTick (clock : Clock) (record : M6Event) : Option Nat :=
  [record.returned, record.dispatch, record.entry].findSome? fun phase =>
    clock.tick (phase.bind PhaseStamp.hostQpc)

def decideRecord (pass : Pass) (record : M6Event) : Except Failure Decided :=
  if record.complete then decideComplete ctx record pass.entryRank pass.lower pass.claimed
  else .ok (decideIncomplete ctx record)

def Pass.after (pass : Pass) (captureId : String) (record : M6Event) (decided : Decided) :
    Pass :=
  let chain := chainOf captureId record decided
  { chains := pass.chains ++ [chain]
    unmatched := pass.unmatched ++
      chain.stages.each.flatMap fun stage => stageUnmatched record.sequence stage.1 stage.2
    ambiguous := pass.ambiguous ++
      chain.stages.each.flatMap fun stage => stageAmbiguous record.sequence stage.1 stage.2
    marks := pass.marks ++ decided.marks
    claimed := pass.claimed ++
      (if record.complete then decided.m4Entry.matched?.toList.map EventId.sequence else [])
    entryRank := if record.entry.isSome then pass.entryRank + 1 else pass.entryRank
    lower := if ctx.clock.point then latestTick ctx.clock record <|> pass.lower else pass.lower }

def Pass.step (captureId : String) (pass : Pass) (record : M6Event) : Except Failure Pass := do
  let decided ← decideRecord ctx pass record
  .ok (pass.after ctx captureId record decided)

end Records

/-- The evidence in the order of its sequence numbers, and the pairing of the transitions. -/
structure Evidence where
  ctx : Ctx
  records : List M6Event
  pairing : Pairing
  marks : List Mark

def read {τ : Type} (layer : Layer) (source : LayerSource τ) : Except Failure τ :=
  source.trace.mapError fun why =>
    .refused (layer.wireName ++ " trace is not a readable trace read: " ++ why)

def readOption {τ : Type} (layer : Layer) :
    Option (LayerSource τ) → Except Failure (Option (LayerSource τ × τ))
  | none => .ok none
  | some source => do
    let trace ← read layer source
    .ok (some (source, trace))

def evidenceFrom (clock : Clock) (m6 : LayerSummary × List M6Event × List Mark)
    (m4 : Option (LayerSummary × List M4Event × List Mark))
    (m5 : Option (LayerSummary × List M5Event × List Mark)) : Evidence :=
  let pairing : Pairing := m5.elim {} fun m5 => pairRoundTrips clock m5.2.1
  { ctx :=
      { clock
        m4 := m4.map fun m4 => (m4.1, m4.2.1)
        m5 := m5.map fun m5 => (m5.1, pairing.trips)
        m5Events := m5.map fun m5 => m5.2.1
        m6 := m6.1
        m6Entries := m6.2.1.countP fun record => record.entry.isSome
        m4Candidates := m4.elim [] fun m4 => m4.2.1.filter M4Event.candidate }
    records := m6.2.1
    pairing
    marks := m6.2.2 ++ m4.elim [] (fun m4 => m4.2.2) ++ m5.elim [] (fun m5 => m5.2.2) ++
      pairing.marks }

def JoinInput.hostClock (input : JoinInput) : Clock :=
  ⟨input.clock.mode == .point, input.clock.frequency⟩

def evidenceOf (input : JoinInput) (m6 : M6Trace) (m4 : Option (LayerSource M4Trace × M4Trace))
    (m5 : Option (LayerSource M5Trace × M5Trace)) : Evidence :=
  evidenceFrom input.hostClock (normalizeM6 input.selectedService m6 input.layers.m6Vtl1)
    (m4.map fun found => normalizeM4 input.selectedService input.secureCallKind found.2 found.1)
    (m5.map fun found => normalizeM5 found.2 found.1)

def prepare (input : JoinInput) : Except Failure Evidence := do
  if input.schema ≠ joinInputSchema then
    throw (.refused ("unsupported join input schema " ++ input.schema))
  input.identity.validate.mapError fun message => .refused ("capture identity: " ++ message)
  let m6 ← read .m6Vtl1 input.layers.m6Vtl1
  if m6.selectedService ≠ input.selectedService then
    throw (.refused ("the VTL1 trace selected service " ++ toString m6.selectedService ++
      " where the join was asked about " ++ toString input.selectedService))
  let m4 ← readOption .m4Vtl0 input.layers.m4Vtl0
  let m5 ← readOption .m5Hypervisor input.layers.m5Hypervisor
  return evidenceOf input m6 m4 m5

namespace Evidence

def start (evidence : Evidence) : Pass where
  unmatched := evidence.pairing.unmatched
  marks := evidence.marks
  lower := if evidence.ctx.clock.point then evidence.ctx.m6.window.map Window.outerFrom else none

def unclaimed (evidence : Evidence) (claimed : List Nat) : List Unmatched :=
  (pool evidence.ctx claimed).map fun event =>
    { stage := some .m4Entry
      event := some (m4EventId event.sequence)
      reason :=
        if event.selected then "no VTL1 record claimed this selected VTL0 entry"
        else "no VTL1 record claimed this potentially selected VTL0 entry whose classification " ++
          "was unreadable" }

end Evidence

def Mark.reason (mark : Mark) : String :=
  (match mark.layer with
  | some layer => layer.wireName
  | none => "capture") ++ " " ++ mark.kind.debug ++ ": " ++ mark.detail

def conclude (input : JoinInput) (evidence : Evidence) (pass : Pass) : JoinedCapture :=
  let count := toString pass.chains.length
  let unexpected : Option (String × Mark) :=
    input.expectedSelectedCalls.bind fun expected =>
      if pass.chains.length ≠ expected then
        some
          (count ++ " VTL1 records where the workload was expected to produce " ++
            toString expected ++ " selected calls",
            { layer := some .m6Vtl1
              kind := .countMismatch
              detail := count ++ " records against " ++ toString expected ++
                " expected selected calls" })
      else none
  let marks := pass.marks ++ (unexpected.map Prod.snd).toList
  let incomplete := pass.chains.countP fun chain => chain.verdict == .incomplete
  let reasons :=
    (if pass.chains.isEmpty then
      ["no VTL1 record of the selected service: nothing to join"] else []) ++
    (unexpected.map Prod.fst).toList ++ marks.map Mark.reason ++
    (if 0 < incomplete then [toString incomplete ++ " chains are incomplete"] else [])
  let verdict : JoinVerdict :=
    if !reasons.isEmpty then .incomplete
    else if pass.chains.any fun chain => chain.verdict == .provisional then .provisional
    else .complete
  { roundTrips := evidence.pairing.trips
    chains := pass.chains
    unmatched := pass.unmatched ++ evidence.unclaimed pass.claimed
    ambiguous := pass.ambiguous
    marks
    verdict
    reasons := reasons ++ if verdict = .provisional then
      ["chains start from M6's entry phase; the VTL0 fields are copies, envelope values or " ++
        "unavailable (first_stage.fields)"] else [] }

def join (input : JoinInput) : Except Failure JoinedCapture := do
  let evidence ← prepare input
  let pass ← evidence.records.foldlM (Pass.step evidence.ctx input.identity.captureId)
    evidence.start
  return conclude input evidence pass

section Example

def exampleIdentity : CaptureIdentity :=
  let binding (profile : String) : LayerBinding :=
    ⟨profile, "0000000000000000000000000000000000000000000000000000000000000000"⟩
  { schema := captureSchema
    captureId := "capture"
    vmId := "vm"
    guestBootIdentity := "boot"
    vmwpPid := 7
    parent := none
    workloadLabel := "load"
    processorCount := 1
    targetShape := ⟨true, true, .hypervisorRoot, true, false, .guestNested, .outerVmwp⟩
    layers := ⟨binding "m4", binding "m5", binding "m6"⟩ }

theorem exampleIdentity_validate : exampleIdentity.validate = .ok () := by decide +kernel

theorem prepare_example {input : JoinInput} {m6 : M6Trace}
    {m4 : Option (LayerSource M4Trace × M4Trace)} {m5 : Option (LayerSource M5Trace × M5Trace)}
    (hschema : input.schema = joinInputSchema) (hidentity : input.identity = exampleIdentity)
    (h6 : read .m6Vtl1 input.layers.m6Vtl1 = .ok m6)
    (hservice : m6.selectedService = input.selectedService)
    (h4 : readOption .m4Vtl0 input.layers.m4Vtl0 = .ok m4)
    (h5 : readOption .m5Hypervisor input.layers.m5Hypervisor = .ok m5) :
    prepare input = .ok (evidenceOf input m6 m4 m5) := by
  unfold prepare
  rw [hidentity, exampleIdentity_validate, h6, h4, h5]
  simp [hschema, hservice, bind, Except.bind, Except.mapError]
  rfl

end Example

end WindbgMcp.SkJoin
