import WindbgMcp.KdConn.Scan

/-! The transcript's records of a tool call (`record.rs`): the request, its result, and
the events derived from the typed half of the result. -/
namespace WindbgMcp.Record
open WindbgMcp.Library

/-- A JSON value.  A number is kept as it is written. -/
inductive Value
  | null
  | bool (value : Bool)
  | number (text : String)
  | string (text : String)
  | array (items : List Value)
  | object (members : List (String × Value))

namespace Value

mutual
def leaves : Value → List String
  | .string text => [text]
  | .array items => itemLeaves items
  | .object members => memberLeaves members
  | _ => []

def itemLeaves : List Value → List String
  | [] => []
  | item :: rest => item.leaves ++ itemLeaves rest

def memberLeaves : List (String × Value) → List String
  | [] => []
  | (_, value) :: rest => value.leaves ++ memberLeaves rest
end

mutual
def names : Value → List String
  | .array items => itemNames items
  | .object members => memberNames members
  | _ => []

def itemNames : List Value → List String
  | [] => []
  | item :: rest => item.names ++ itemNames rest

def memberNames : List (String × Value) → List String
  | [] => []
  | (name, value) :: rest => name :: (value.names ++ memberNames rest)
end

def strings (value : Value) : List String := value.leaves ++ value.names

def get (value : Value) (name : String) : Option Value :=
  match value with
  | .object members => (members.find? fun member => member.1 == name).map Prod.snd
  | _ => none

def asStr : Value → Option String
  | .string text => some text
  | _ => none

end Value

/-- A text field, and how many bytes were left out of it. -/
structure Capped where
  text : String
  dropped : Option Nat

/-- `text` if it fits, else what does, up to a character boundary.  A limit of zero is
no cap. -/
def Capped.of (text : String) (limit : Nat) : Capped :=
  let len := Utf8.byteLen text.toList
  if limit = 0 ∨ len ≤ limit then ⟨text, none⟩
  else
    let kept := Utf8.truncate text.toList limit
    ⟨String.ofList kept, some (len - Utf8.byteLen kept)⟩

inductive Verdict
  | ok
  | error

inductive ErrorCategory
  | recoveryRequired
  | invalidArgument
  | debugger
  | timeout
  | interrupted
  | notRun
  | staleSession
  | workerLost
  | capacity
  | targetRunning

/-- The events a tool call writes. -/
inductive Event
  | toolRequest (request : Nat) (tool : String) (session : Option String) (args : Option Value)
  | toolResult (request : Nat) (tool : String) (session : Option String) (elapsedMs : Nat)
      (verdict : Verdict) (category : Option ErrorCategory) (text : Capped)
      (data : Option Value)
  | stop (request : Nat) (session : Option String) (command : String)
      (stoppedAt : Option String) (interrupted timedOut targetGone : Bool)
  | runTo (request : Nat) (session : Option String) (verdict target : String)
      (stoppedAt : Option String)
  | mutation (request : Nat) (session : Option String) (kind : String) (detail : Capped)
      (step : Option Capped)
  | assertion (request : Nat) (session : Option String) (step detail : Capped)
  | batch (request : Nat) (session : Option String) (outcome : String) (atStep : Option Nat)
      (committed rollbackComplete : Bool) (rollback : Option String) (after : String)
      (elapsedMs : Nat)

def Event.strings : Event → List String
  | .toolRequest _ tool session args =>
    tool :: (session.toList ++ args.toList.flatMap Value.strings)
  | .toolResult _ tool session _ _ _ text data =>
    tool :: text.text :: (session.toList ++ data.toList.flatMap Value.strings)
  | .stop _ session command stoppedAt _ _ _ => command :: (session.toList ++ stoppedAt.toList)
  | .runTo _ session verdict target stoppedAt =>
    verdict :: target :: (session.toList ++ stoppedAt.toList)
  | .mutation _ session kind detail step =>
    kind :: detail.text :: (session.toList ++ step.toList.map Capped.text)
  | .assertion _ session step detail => step.text :: detail.text :: session.toList
  | .batch _ session outcome _ _ _ rollback after _ =>
    outcome :: after :: (session.toList ++ rollback.toList)

/-- `name_of`: the tag an event is written under. -/
def Event.kind : Event → String
  | .toolRequest .. => "tool_request"
  | .toolResult .. => "tool_result"
  | .stop .. => "stop"
  | .runTo .. => "run_to"
  | .mutation .. => "mutation"
  | .assertion .. => "assertion"
  | .batch .. => "batch"

/-- What a line of the file holds: an event, or the marker in the place of one past the
ceiling. -/
inductive Line
  | whole (event : Event)
  | oversized (kind : String) (bytes : Nat)

def Line.strings : Line → List String
  | .whole event => event.strings
  | .oversized kind _ => [kind]

def recordOverhead : Nat := 4096

structure StopReport where
  command : String
  stoppedAt : Option String
  interrupted : Bool
  timedOut : Bool
  targetGone : Bool

def StopReport.strings (stop : StopReport) : List String :=
  stop.command :: stop.stoppedAt.toList

inductive RunToVerdict
  | hit
  | stoppedElsewhere
  | timeout
  | targetGone

def RunToVerdict.name : RunToVerdict → String
  | .hit => "hit"
  | .stoppedElsewhere => "stopped_elsewhere"
  | .timeout => "timeout"
  | .targetGone => "target_gone"

structure RunToReport where
  verdict : RunToVerdict
  target : String
  stoppedAt : Option String

def RunToReport.strings (run : RunToReport) : List String := run.target :: run.stoppedAt.toList

inductive BreakpointKind
  | code
  | data
  | other (kindCode : Nat)

structure DataWatch where
  access : String
  size : Nat

structure BreakpointInfo where
  id : Nat
  kind : BreakpointKind
  address : Option String
  expression : Option String
  command : Option String
  watch : Option DataWatch
  deferred : Bool

structure BreakpointSet where
  breakpoint : BreakpointInfo
  replaced : List Nat

inductive BatchOutcomeName
  | committed
  | failed
  | timedOut
  | abandoned
  | interrupted
  | targetGone
  | targetReplaced
  | targetUncertain

def BatchOutcomeName.name : BatchOutcomeName → String
  | .committed => "committed"
  | .failed => "failed"
  | .timedOut => "timed_out"
  | .abandoned => "abandoned"
  | .interrupted => "interrupted"
  | .targetGone => "target_gone"
  | .targetReplaced => "target_replaced"
  | .targetUncertain => "target_uncertain"

inductive RollbackDisposition
  | notSupplied
  | complete
  | incomplete
  | notAttempted

def RollbackDisposition.name : RollbackDisposition → String
  | .notSupplied => "not_supplied"
  | .complete => "complete"
  | .incomplete => "incomplete"
  | .notAttempted => "not_attempted"

inductive SessionAfterInfo
  | stopped
  | running
  | detached
  | ended
  | uncertain

def SessionAfterInfo.name : SessionAfterInfo → String
  | .stopped => "stopped"
  | .running => "running"
  | .detached => "detached"
  | .ended => "ended"
  | .uncertain => "uncertain"

inductive StepResultName
  | ok
  | failed
  | unmet
  | skipped
  deriving DecidableEq

structure BatchStepInfo where
  position : Nat
  label : String
  result : StepResultName
  detail : Option String
  changes : Option String

def BatchStepInfo.strings (step : BatchStepInfo) : List String :=
  step.label :: (step.detail.toList ++ step.changes.toList)

structure BatchReportInfo where
  outcome : BatchOutcomeName
  stoppedAt : Option Nat
  committed : Bool
  rollbackComplete : Bool
  rollback : RollbackDisposition
  after : SessionAfterInfo
  elapsedMs : Nat
  steps : List BatchStepInfo
  always : List BatchStepInfo

/-- The typed reads of a result's data.  A string that is read is one of its leaves. -/
structure Reads where
  stop : Value → Option StopReport
  runTo : Value → Option RunToReport
  breakpointSet : Value → Option BreakpointSet
  batch : Value → Option BatchReportInfo
  category : Value → Option ErrorCategory
  stop_leaves : ∀ data report, stop data = some report →
    ∀ text ∈ report.strings, text ∈ data.leaves
  runTo_leaves : ∀ data report, runTo data = some report →
    ∀ text ∈ report.strings, text ∈ data.leaves
  batch_leaves : ∀ data report, batch data = some report →
    ∀ step ∈ report.steps ++ report.always, ∀ text ∈ step.strings, text ∈ data.leaves

/-- What a recorder runs with: the secrets it masks, its field cap, how long a value is
when it is written out (`none` if it cannot be), how a string is quoted for a reader,
and the typed reads. -/
structure Host where
  isAlphanumeric : Char → Bool
  known : List KdConn.Secret
  limit : Nat
  rendered : Value → Option Nat
  quoted : String → String
  reads : Reads

/-- A tool call: what was asked, where it was routed, and what came of it. -/
structure Call where
  request : Nat
  tool : String
  args : Option Value
  routed : Option String
  isError : Bool
  elapsedMs : Nat
  text : String
  data : Option Value

namespace Host
variable (host : Host)

def scrub (text : String) : String := KdConn.scrubbedText host.isAlphanumeric host.known text

def capped (text : String) : Capped := Capped.of text host.limit

mutual
def scrubbed : Value → Value
  | .string text => .string (host.scrub text)
  | .array items => .array (scrubbedItems items)
  | .object members => .object (scrubbedMembers members)
  | .null => .null
  | .bool value => .bool value
  | .number text => .number text

def scrubbedItems : List Value → List Value
  | [] => []
  | item :: rest => scrubbed item :: scrubbedItems rest

def scrubbedMembers : List (String × Value) → List (String × Value)
  | [] => []
  | (name, value) :: rest =>
    (name, if KdConn.isSecretName name then .string KdConn.mask else scrubbed value) ::
      scrubbedMembers rest
end

def droppedBytes (value : Value) : Option Nat :=
  match host.rendered value with
  | none => some 0
  | some len => if host.limit ≠ 0 ∧ host.limit < len then some len else none

def payload (value : Value) : Value :=
  match host.droppedBytes value with
  | some size => .object [("transcript_dropped_bytes", .number (toString size))]
  | none => value

def requestSession (args : Option Value) : Option String :=
  ((args.bind (Value.get · "session_id")).bind Value.asStr).map fun id =>
    (host.capped (host.scrub id)).text

def toolRequest (call : Call) : Event :=
  .toolRequest call.request call.tool (host.requestSession call.args)
    (call.args.map fun args => host.payload (host.scrubbed args))

def session (call : Call) : Option String :=
  match call.routed with
  | some session => some session
  | none => host.requestSession call.args

/-- How one added breakpoint reads: where it will fire, and what it is. -/
def breakpointDetail (set : BreakpointSet) : String :=
  let bp := set.breakpoint
  let place := (bp.address.or bp.expression).getD "an unresolved location"
  let deferred := if bp.deferred then ", deferred" else ""
  let command := bp.command.elim "" fun command =>
    ", running " ++ host.quoted command ++ " on each hit"
  let watching := bp.watch.elim "" fun watch =>
    ", watching " ++ toString watch.size ++ " byte(s) for " ++ watch.access ++ " access"
  let kind :=
    match bp.kind with
    | .data => "data breakpoint"
    | _ => "breakpoint"
  kind ++ " " ++ toString bp.id ++ " at " ++ place ++ watching ++ deferred ++ command

def replacedDetail (set : BreakpointSet) (id : Nat) : String :=
  "breakpoint " ++ toString id ++ " removed — replaced by breakpoint " ++
    toString set.breakpoint.id ++ " at the same address"

def stepAt (block : String) (step : BatchStepInfo) : String :=
  block ++ "[" ++ toString step.position ++ "] " ++ step.label

def stepEvents (request : Nat) (session : Option String) (block : String)
    (step : BatchStepInfo) : List Event :=
  let place := host.capped (stepAt block step)
  (match step.changes with
    | some changes =>
      [.mutation request session "batch_step" (host.capped changes) (some place)]
    | none => []) ++
  if step.result = .unmet then
    [.assertion request session place (host.capped (step.detail.getD ""))]
  else []

def batchEvents (request : Nat) (session : Option String) (data : Value) : List Event :=
  match host.reads.batch data with
  | none => []
  | some report =>
    report.steps.flatMap (host.stepEvents request session "steps") ++
      report.always.flatMap (host.stepEvents request session "always") ++
      [.batch request session report.outcome.name report.stoppedAt report.committed
        report.rollbackComplete (some report.rollback.name) report.after.name
        report.elapsedMs]

def resuming : List String :=
  ["go", "step_over", "step_into", "step_back", "step_over_back", "reverse_go"]

/-- The events a tool's typed answer implies. -/
def derived (call : Call) (data : Value) : List Event :=
  let request := call.request
  let session := host.session call
  if call.tool ∈ resuming then
    match host.reads.stop data with
    | none => []
    | some stop =>
      [.stop request session stop.command stop.stoppedAt stop.interrupted stop.timedOut
        stop.targetGone]
  else if call.tool = "run_to_address" then
    match host.reads.runTo data with
    | none => []
    | some run => [.runTo request session run.verdict.name run.target run.stoppedAt]
  else if call.tool = "set_breakpoint" ∨ call.tool = "ioctl_trace" then
    match host.reads.breakpointSet data with
    | none => []
    | some set =>
      .mutation request session "breakpoint" (host.capped (host.breakpointDetail set)) none ::
        set.replaced.map fun id =>
          .mutation request session "breakpoint" (host.capped (replacedDetail set id)) none
  else if call.tool = "debug_batch" then host.batchEvents request session data
  else []

def toolResult (call : Call) : List Event :=
  let scrubbedData := call.data.map host.scrubbed
  .toolResult call.request call.tool (host.session call) call.elapsedMs
      (if call.isError then .error else .ok) (scrubbedData.bind host.reads.category)
      -- scrubbed and then capped: a cut could leave the front of a secret
      (host.capped (host.scrub call.text)) (scrubbedData.map host.payload) ::
    scrubbedData.toList.flatMap (host.derived call)

/-- The events of a call, as they are handed to `write`. -/
def written (call : Call) : List Event := host.toolRequest call :: host.toolResult call

def overCeiling (bytes : Nat) : Option Nat :=
  if host.limit ≠ 0 ∧ host.limit * 8 + recordOverhead < bytes then some bytes else none

/-- `Recorder::write`, where a record comes to `lineLength` bytes. -/
def write (lineLength : Event → Nat) (event : Event) : Line :=
  match host.overCeiling (lineLength event) with
  | some bytes => .oversized event.kind bytes
  | none => .whole event

end Host
end WindbgMcp.Record
