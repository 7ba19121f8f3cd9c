import WindbgMcp.Server.Commands

/-! The step language of a batch: actions, assertions, capture references, and
what a command is taken to change. -/
namespace WindbgMcp.Batch

open Library Server

inductive StepAction where
  | command (command : String)
  | resume (command : String) (timeoutMs : Option Nat)
  | runTo (address : String) (timeoutMs : Option Nat)
  | eval (expr : String)
  | readMemory (address : String) (size : Nat)
  | poolChunk (address : String) (refresh : Option Bool)
  | poolFindTag (tag : String) (paged refresh : Option Bool)
      (stopAfterMatches : Option { matches_ : Nat // 0 < matches_ }) (limit : Option Nat)
  | poolCensus (refresh : Option Bool) (limit : Option Nat)
deriving DecidableEq, Repr

inductive Check where
  | contains (text : String)
  | notContains (text : String)
  | eval (expr equals : String)
deriving DecidableEq, Repr

structure BatchStep where
  name : Option String
  action : StepAction
  expect : List Check
  capture : Option String
deriving DecidableEq, Repr

structure BatchOp where
  steps : List BatchStep
  always : List BatchStep
deriving DecidableEq, Repr

/-! ## Rendering -/

def walkKind (refresh : Option Bool) : String :=
  if refresh.getD false then " (fresh walk)" else ""

def StepAction.rendered : StepAction → String
  | .command line => line
  | .resume line _ => line
  | .runTo address _ => "run to " ++ address
  | .eval expr => "? " ++ expr
  | .readMemory address size => "read " ++ toString size ++ " bytes at " ++ address
  | .poolChunk address refresh => "pool chunk containing " ++ address ++ walkKind refresh
  | .poolFindTag tag paged refresh stopAfterMatches _ =>
    "pool chunks tagged " ++ tag ++
      (match paged with
        | some true => " in paged pool"
        | some false => " in nonpaged pool"
        | none => "") ++
      (match stopAfterMatches with
        | some count => ", stop after " ++ toString count.val ++ " match(es)"
        | none => "") ++
      walkKind refresh
  | .poolCensus refresh _ => "pool census" ++ walkKind refresh

def BatchStep.label (step : BatchStep) : String :=
  match step.name with
  | some name => if (Text.trim name).isEmpty then step.action.rendered else name
  | none => step.action.rendered

/-! ## Capture references -/

def opensReference : List Char := ['\x7b', '\x7b']
def closesReference : List Char := ['\x7d', '\x7d']

def isCaptureChar (c : Char) : Bool := c.isAlphanum || c == '_'

def referenceTo (name : String) : String := "`\x7b\x7b" ++ name ++ "\x7d\x7d`"

def neverClosed (text : String) : String :=
  "`\x7b\x7b` is never closed by `\x7d\x7d` in `" ++ text ++
    "`; a capture reference is written " ++ referenceTo "name"

/-- What becomes of the rest of `text`, from left to right.  A resolved value is
never scanned again. -/
def substituteFrom (resolve : String → Option String) (text : String) (rest : List Char) :
    Except String (List Char) :=
  match _hopen : Text.splitAtFirst opensReference rest with
  | none => .ok rest
  | some (before, after) =>
    match _hclose : Text.splitAtFirst closesReference after with
    | none => .error (neverClosed text)
    | some (name, behind) =>
      if name.isEmpty || !name.all isCaptureChar then
        .error (referenceTo (String.ofList name) ++
          " is not a capture name — letters, digits and `_` only")
      else
        match resolve (String.ofList name) with
        | none => .error (referenceTo (String.ofList name) ++ " is not bound")
        | some value => do
          let replaced ← substituteFrom resolve text behind
          .ok (before ++ value.toList ++ replaced)
termination_by rest.length
decreasing_by
  have hopened := Text.splitAtFirst_length _hopen
  have hclosed := Text.splitAtFirst_length _hclose
  simp only [opensReference, closesReference, List.length_cons, List.length_nil] at hopened hclosed
  omega

def substitute (resolve : String → Option String) (text : String) : Except String String :=
  (substituteFrom resolve text text.toList).map String.ofList

def StepAction.substituted (resolve : String → Option String) :
    StepAction → Except String StepAction
  | .command line => .command <$> substitute resolve line
  | .resume line timeoutMs => (.resume · timeoutMs) <$> substitute resolve line
  | .runTo address timeoutMs => (.runTo · timeoutMs) <$> substitute resolve address
  | .eval expr => .eval <$> substitute resolve expr
  | .readMemory address size => (.readMemory · size) <$> substitute resolve address
  | .poolChunk address refresh => (.poolChunk · refresh) <$> substitute resolve address
  | .poolFindTag tag paged refresh stopAfterMatches limit =>
    (.poolFindTag · paged refresh stopAfterMatches limit) <$> substitute resolve tag
  | .poolCensus refresh limit => .ok (.poolCensus refresh limit)

def Check.substituted (resolve : String → Option String) : Check → Except String Check
  | .contains text => .contains <$> substitute resolve text
  | .notContains text => .notContains <$> substitute resolve text
  | .eval expr equals => do
    let expr ← substitute resolve expr
    let equals ← substitute resolve equals
    .ok (.eval expr equals)

def Check.needsTheEngine : Check → Bool
  | .contains _ | .notContains _ => false
  | .eval _ _ => true

/-- The action and then the checks, as the executor resolves them before it runs
anything. -/
def BatchStep.substituted (step : BatchStep) (resolve : String → Option String) :
    Except String (StepAction × List Check) := do
  let action ← step.action.substituted resolve
  let checks ← step.expect.mapM (Check.substituted resolve)
  .ok (action, checks)

/-! ## What a step changed -/

def memoryWrites : List String :=
  ["e", "ea", "eb", "ed", "ef", "ep", "eq", "eu", "ew", "ez", "eza", "ezu", "f", "fp", "m",
    ".readmem", ".fillmem"]

def breakpoints : List String :=
  ["ba", "bc", "bd", "be", "bm", "bp", "br", "bs", "bsc", "bu", "sxd", "sxe", "sxi", "sxn"]

def execution : List String :=
  ["g", "gc", "gh", "gn", "gu", "p", "pa", "pc", "pt", "t", "ta", "tb", "tc", "tt", "wt", "-g",
    "-p", "-t"]

def engine : List String :=
  [".load", ".loadby", ".unload", ".unloadall", ".reload", ".sympath", ".sympath+", ".symfix",
    ".symfix+", ".srcpath", ".srcpath+", ".exepath"]

def mutationKind (segment : String) : Option String := do
  let first ← Text.firstWord segment
  let token := Text.toAsciiLowercase first
  if changesDebugTarget segment then some "the debug target"
  else if memoryWrites.contains token then some "memory"
  else if token == "r" && segment.toList.contains '=' then some "registers"
  else if breakpoints.contains token then some "breakpoints"
  else if execution.contains token then some "execution"
  else if engine.contains token then some "engine settings"
  else none

def mutation (command : String) : Option String :=
  let kinds := ((Text.split endsCommand command).filterMap mutationKind).foldl
    (fun kinds kind => if kinds.contains kind then kinds else kinds ++ [kind]) []
  if kinds.isEmpty then none else some (String.intercalate " + " kinds)

def actionMutation : StepAction → Option String
  | .command command => mutation command
  | .resume command _ =>
    match mutation command with
    | some more => some (if more ≠ "execution" then more else "execution")
    | none => some "execution"
  | .runTo _ _ => some "execution"
  | .eval _ | .readMemory _ _ | .poolChunk _ _ | .poolFindTag _ _ _ _ _ | .poolCensus _ _ => none

end WindbgMcp.Batch
