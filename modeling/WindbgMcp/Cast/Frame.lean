import WindbgMcp.KdConn.Connection
import WindbgMcp.Record.Transcript

/-! What a terminal is sent for one record of a transcript (`cast.rs`).  How a tool's
arguments are written as text is `serde_json`'s, and upper-casing is the standard library's,
character by character. -/
namespace WindbgMcp.Cast
open WindbgMcp.Library
open WindbgMcp.KdConn (isControl)
open WindbgMcp.Record (Value Capped)

/-- A transcript's events: those of a tool call, and those of the server and its sessions. -/
inductive Event
  | start (version : String) (pid fieldLimit schema : Nat)
  | call (event : Record.Event)
  | sessionOpen (session kind : String) (target : Capped) (enginePid : Nat)
  | sessionState (session state : String) (detail : Option Capped)
  | sessionEnd (session : String) (released workerTerminated : Bool) (waitedMs : Option Nat)
  | workerLost (session : String) (detail : Capped)
  | callTimeout (session : String) (budgetMs : Nat)
  | interrupt (session : String) (delivered : Bool) (detail : Option Capped)
  | shutdown (sessions : Nat)
  | leaseExpired (sessions : Nat)
  | oversized (kind : String) (bytes : Nat)

structure Entry where
  run : Nat
  seq : Nat
  stamp : String
  monoMs : Nat
  event : Event

def reset : List Char := "\x1b[0m".toList
def dim : List Char := "\x1b[2m".toList
def prompt : List Char := "\x1b[1;32m".toList
def toolStyle : List Char := "\x1b[1;36m".toList
def okStyle : List Char := "\x1b[32m".toList
def failStyle : List Char := "\x1b[1;31m".toList
def noteStyle : List Char := "\x1b[34m".toList
def stopStyle : List Char := "\x1b[33m".toList
def mutationStyle : List Char := "\x1b[1;35m".toList

def styles : List (List Char) :=
  [reset, dim, prompt, toolStyle, okStyle, failStyle, noteStyle, stopStyle, mutationStyle]

def caret (c : Char) : Char := if c.toNat ≤ 0x1f then Char.ofNat (c.toNat + 0x40) else '?'

def visibleChar (c : Char) : List Char :=
  if c = '\n' then ['\n']
  else if c = '\t' then ['\t']
  else if isControl c then ['^', caret c]
  else if c = '\u2028' then "<U+2028>".toList
  else if c = '\u2029' then "<U+2029>".toList
  else [c]

def visible (text : List Char) : List Char :=
  if text.any fun c => isControl c || c = '\u2028' || c = '\u2029' then
    text.flatMap visibleChar
  else text

def line (text : List Char) : List Char := text ++ "\r\n".toList

def note (colour : List Char) (text : String) : List Char :=
  line (colour ++ "  · ".toList ++ visible text.toList ++ reset)

def suffix (detail : Option Capped) : String := detail.elim "" fun d => " — " ++ d.text

/-- `str::lines`: a line that is ended loses its ending, and an empty last line is none. -/
def lines (text : List Char) : List (List Char) :=
  let pieces := Text.splitChars (· = '\n') text
  let last := pieces.getLast?.getD []
  pieces.dropLast.map (fun piece => if piece.getLast? = some '\r' then piece.dropLast else piece) ++
    if last = [] then [] else [last]

def digits (count : Nat) : List Char := (toString count).toList

/-- A result's text, cut to `maxLines` lines, and how much of it is left out. -/
def body (text : Capped) (maxLines : Nat) : List Char :=
  if text.text.toList = [] then []
  else
    let all := lines text.text.toList
    let shown := if maxLines = 0 then all.length else min all.length maxLines
    let hidden := all.length - shown
    (all.take shown).flatMap (fun l => line (visible l)) ++
      (if 0 < hidden then
        line (dim ++ "… ".toList ++ digits hidden ++
          " more line(s) in the transcript".toList ++ reset)
      else []) ++
      text.dropped.elim [] fun dropped =>
        line (dim ++ "… ".toList ++ digits dropped ++
          " more byte(s) were not recorded (field cap)".toList ++ reset)

section
variable (render : Value → List Char)

def clipped (args : Value) : List Char := (render args).take 160

def renderArgs (args : Value) : List Char :=
  visible (clipped render args) ++
    if (clipped render args).length < (render args).length then "…".toList else []

variable (upper : Char → List Char)

def toUppercase (text : String) : String := String.ofList (text.toList.flatMap upper)

def undone (rollback : Option String) (rollbackComplete : Bool) : String :=
  if rollback = some "not_attempted" then "NOT ATTEMPTED"
  else if rollback = some "not_supplied" then "none supplied"
  else if rollbackComplete then "complete"
  else "INCOMPLETE"

/-- The frame of a tool call's event. -/
def callFrame (maxLines : Nat) : Record.Event → List Char
  | .toolRequest _ tool _ args =>
    line (prompt ++ "$".toList ++ reset ++ " ".toList ++ toolStyle ++ visible tool.toList ++
      reset ++ " ".toList ++ dim ++ args.elim [] (renderArgs render) ++ reset)
  | .toolResult _ _ _ elapsedMs verdict _ text _ =>
    let mark :=
      match verdict with
      | .error => failStyle ++ "error".toList ++ reset
      | .ok => okStyle ++ "ok".toList ++ reset
    body text maxLines ++
      line (dim ++ "[".toList ++ mark ++ dim ++ " in ".toList ++ digits elapsedMs ++
        " ms]".toList ++ reset) ++ "\r\n".toList
  | .stop _ _ command stoppedAt interrupted timedOut targetGone =>
    note stopStyle
      (if targetGone then
        "`" ++ command ++ "` ran the target to its end; this session is over"
      else
        "`" ++ command ++ "` stopped at " ++ stoppedAt.getD "an unknown position" ++
          if interrupted then " (on request)"
          else if timedOut then " (broken in at the bound, not a stop it reached)"
          else "")
  | .runTo _ _ verdict target stoppedAt =>
    note stopStyle
      ("run to " ++ target ++ ": " ++ toUppercase upper verdict ++
        stoppedAt.elim "" fun place => " at " ++ place)
  | .mutation _ _ _ detail step =>
    note mutationStyle
      ("changed: " ++ detail.text ++ step.elim "" fun s => " [" ++ s.text ++ "]")
  | .assertion _ _ step detail =>
    note failStyle ("assertion did not hold at " ++ step.text ++ ": " ++ detail.text)
  | .batch _ _ outcome atStep _ rollbackComplete rollback after _ =>
    note (if rollbackComplete && outcome = "committed" then okStyle else failStyle)
      ("batch " ++ toUppercase upper outcome ++
        (atStep.elim "" fun step => " at step " ++ toString step) ++
        " — rollback " ++ undone rollback rollbackComplete ++ ", session " ++ after)

def eventFrame (maxLines : Nat) : Event → List Char
  | .start version _ _ _ =>
    line (dim ++ "windbg-mcp ".toList ++ visible version.toList ++
      " — session transcript".toList ++ reset)
  | .call event => callFrame render upper maxLines event
  | .sessionOpen session kind target enginePid =>
    note noteStyle
      ("session " ++ session ++ " — " ++ kind ++ " `" ++ target.text ++ "` (engine pid " ++
        toString enginePid ++ ")")
  | .sessionState session state detail =>
    note noteStyle ("session " ++ session ++ " → " ++ state ++ suffix detail)
  | .sessionEnd session released _ _ =>
    note (if released then noteStyle else failStyle)
      (if released then "session " ++ session ++ " released its target"
      else "session " ++ session ++ " ENDED WITHOUT RELEASING its target")
  | .workerLost session detail =>
    note failStyle ("session " ++ session ++ " lost its engine: " ++ detail.text)
  | .callTimeout session budgetMs =>
    note failStyle
      ("session " ++ session ++ ": a wait was abandoned after " ++ toString budgetMs ++
        " ms (the job may still be running)")
  | .interrupt session delivered _ =>
    note noteStyle
      (if delivered then "session " ++ session ++ " interrupted"
      else "session " ++ session ++ ": an interrupt was not acknowledged")
  | .shutdown sessions =>
    note dim ("server shutting down, releasing " ++ toString sessions ++ " session(s)")
  | .leaseExpired sessions =>
    note dim ("client lease expired, releasing " ++ toString sessions ++ " session(s)")
  | .oversized kind bytes =>
    note failStyle
      ("a `" ++ kind ++ "` record was " ++ toString bytes ++ " bytes and was not stored")

/-- The frame of a record, or `none` for one that shows nothing. -/
def frame (record : Entry) (maxLines : Nat) : Option (List Char) :=
  let out := eventFrame render upper maxLines record.event
  if out = [] then none else some out

end

end WindbgMcp.Cast
