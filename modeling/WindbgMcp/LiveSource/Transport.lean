import Mathlib.Algebra.Order.Ring.Nat
import WindbgMcp.Library.ByteStream
import WindbgMcp.Library.Text

/-! The line protocol of a child memory transport: requests on its stdin, one status line
and for a read the announced bytes on its stdout. -/
namespace WindbgMcp.LiveSource
open Library Library.ByteStream

def maxLineBytes : Nat := 64 * 1024
def maxDeclaredRead : Nat := 2 ^ 20
def maxDeclaredWrite : Nat := 2 ^ 12

inductive SourceDetail where
  | unparseableCount (line : String)
  | announced (got want : Nat)
  | reported (detail : String)
  | unknownWord (word line : String)
  | unsent (count : Nat)
deriving DecidableEq, Repr

inductive ReadFailure where
  | refused (detail : String)
  | notPresent
  | sourceError (detail : SourceDetail)
  | short (got want : Nat)
deriving DecidableEq, Repr

structure GuestShape where
  cr0 : Option Nat := none
  cr3 : Option Nat := none
  cr4 : Option Nat := none
  efer : Option Nat := none
  vtlEnabled : Option Bool := none
  /-- Long mode is the only paging mode a transport may name. -/
  longMode : Bool := false
  switchRefused : Option String := none
  unreadable : List (String × String) := []
deriving DecidableEq, Repr

structure ShapeReply where
  shape : GuestShape := {}
  maxRead : Nat := 0
  maxWrite : Option Nat := none
  instructionWritesCoherent : Bool := false
  explicitRefresh : Bool := false
  kernelBase : Option Nat := none
deriving DecidableEq, Repr

structure ShapeFields where
  reply : ShapeReply := {}
  maxRead : Option Nat := none
  maxWrite : Option Nat := none
  instructionWritesCoherent : Bool := false
deriving DecidableEq, Repr

def number (key value : String) : Except String Nat :=
  let parsed :=
    match (Text.afterFront "0x" value).orElse fun _ => Text.afterFront "0X" value with
    | some hex => Text.parseHex (2 ^ 64 - 1) hex
    | none => Text.parseUnsigned (2 ^ 64 - 1) value
  match parsed with
  | some value => .ok value
  | none => .error (key ++ "=\"" ++ value ++ "\" is not a number")

def underscoresToSpaces (text : String) : String :=
  String.ofList (text.toList.map fun c => if c = '_' then ' ' else c)

def setUnreadable (value : String) (shape : GuestShape) : Except String GuestShape :=
  let (name, why) := (Text.splitOnce ':' value).getD (value, "no reason given")
  if ["cr0", "cr3", "cr4", "efer"].contains name then
    .ok { shape with unreadable := shape.unreadable ++ [(name, underscoresToSpaces why)] }
  else .error ("unreadable names an unknown register \"" ++ name ++ "\"")

/-- One `key=value` field of a `SHAPE` line; an unknown key is refused. -/
def setField (fields : ShapeFields) (key value : String) : Except String ShapeFields := do
  let reply := fields.reply
  let shape := reply.shape
  match key with
  | "cr0" =>
    return { fields with
      reply := { reply with shape := { shape with cr0 := some (← number key value) } } }
  | "cr3" =>
    return { fields with
      reply := { reply with shape := { shape with cr3 := some (← number key value) } } }
  | "cr4" =>
    return { fields with
      reply := { reply with shape := { shape with cr4 := some (← number key value) } } }
  | "efer" =>
    return { fields with
      reply := { reply with shape := { shape with efer := some (← number key value) } } }
  | "kernel_base" =>
    let base ← number key value
    if base = 0 then .error "kernel_base must be nonzero when supplied"
    else return { fields with reply := { reply with kernelBase := some base } }
  | "max_read" => return { fields with maxRead := some (← number key value) }
  | "max_write" => return { fields with maxWrite := some (← number key value) }
  | "write_coherency" =>
    if value = "instruction_coherent" then
      return { fields with instructionWritesCoherent := true }
    else .error ("write_coherency must be instruction_coherent, got \"" ++ value ++ "\"")
  | "read_coherency" =>
    if value = "explicit_refresh" then
      return { fields with reply := { reply with explicitRefresh := true } }
    else .error ("read_coherency must be explicit_refresh, got \"" ++ value ++ "\"")
  | "vtl_enabled" =>
    if value = "1" then
      return { fields with reply := { reply with shape := { shape with vtlEnabled := some true } } }
    else if value = "0" then
      return { fields with
        reply := { reply with shape := { shape with vtlEnabled := some false } } }
    else .error ("vtl_enabled must be 0 or 1, got \"" ++ value ++ "\"")
  | "paging" =>
    if value = "long" then
      return { fields with reply := { reply with shape := { shape with longMode := true } } }
    else .error ("this decode only walks long mode; transport said \"" ++ value ++ "\"")
  | "switch_refused" =>
    return { fields with
      reply := { reply with
        shape := { shape with switchRefused := some (underscoresToSpaces value) } } }
  | "unreadable" =>
    return { fields with reply := { reply with shape := (← setUnreadable value shape) } }
  | other =>
    .error ("unknown SHAPE field \"" ++ other ++ "\"; a misspelled key would read as a guest " ++
      "that cannot answer, so it is refused instead")

def setWord (fields : ShapeFields) (field : String) : Except String ShapeFields :=
  match Text.splitOnce '=' field with
  | none => .error ("field \"" ++ field ++ "\" is not key=value")
  | some (key, value) => setField fields key value

def settleShape (fields : ShapeFields) : Except String ShapeReply :=
  match fields.maxRead with
  | none => .error "SHAPE must declare max_read"
  | some declared =>
    if declared = 0 ∨ maxDeclaredRead < declared then
      .error ("max_read=" ++ toString declared ++ " is outside 1..=1048576")
    else
      let reply := { fields.reply with maxRead := declared }
      match fields.maxWrite, fields.instructionWritesCoherent with
      | none, false => .ok reply
      | some _, false =>
        .error "SHAPE max_write requires write_coherency=instruction_coherent"
      | none, true => .error "SHAPE write_coherency requires max_write"
      | some written, true =>
        if written = 0 ∨ maxDeclaredWrite < written then
          .error ("max_write=" ++ toString written ++ " is outside 1..=4096")
        else .ok { reply with maxWrite := some written, instructionWritesCoherent := true }

def parseShape (line : String) : Except String ShapeReply :=
  match Text.afterFront "SHAPE" line with
  | none => .error ("expected a SHAPE reply, got \"" ++ line ++ "\"")
  | some rest => do
    let fields ← (Text.splitWhitespace rest).foldlM setWord {}
    settleShape fields

def parseStatus (usizeMax : Nat) (line : String) (want : Nat) : Except ReadFailure Nat :=
  let (word, rest) := (Text.splitOnce ' ' line).getD (line, "")
  match word with
  | "OK" =>
    match Text.parseUnsigned usizeMax (Text.trim rest) with
    | none => .error (.sourceError (.unparseableCount line))
    | some got => if want < got then .error (.sourceError (.announced got want)) else .ok got
  | "REFUSED" =>
    .error (.refused
      (if (Text.trim rest).isEmpty then "the transport refused and gave no detail"
      else Text.trim rest))
  | "NOTPRESENT" => .error .notPresent
  | "ERROR" => .error (.sourceError (.reported (Text.trim rest)))
  | other => .error (.sourceError (.unknownWord other line))

def framingFault : ReadFailure → Bool
  | .refused _ | .notPresent => false
  | .short _ _ | .sourceError _ => true

structure Transport where
  reader : List Arrival
  written : List UInt8
  maxRead : Nat
  maxWrite : Option Nat
  poisoned : Bool
deriving DecidableEq, Repr

/-- An error by where it arises.  A read reports the first four as a `SourceError`. -/
inductive Failure where
  | desynchronised
  /-- The request is refused before anything is sent. -/
  | withheld (text : String)
  | unsent
  | unread (text : String)
  /-- The status line, or what was to follow it, names a failure. -/
  | status (failure : ReadFailure)
  /-- The status line of a write or a refresh counts other bytes than were asked for. -/
  | miscounted (text : String)
  /-- A complete reply to `SHAPE` that does not parse. -/
  | shape (text : String)
deriving DecidableEq, Repr

namespace Transport

/-- The request and its body go out together.  `broken` is the number of bytes after which
the write or the flush fails, none if it does not. -/
def send (transport : Transport) (request : String) (body : List UInt8) (broken : Option Nat) :
    Transport × Except Failure Unit :=
  if transport.poisoned then (transport, .error .desynchronised)
  else
    let message := request.toUTF8.data.toList ++ body
    match broken with
    | some count =>
      ({ transport with written := transport.written ++ message.take count, poisoned := true },
        .error .unsent)
    | none => ({ transport with written := transport.written ++ message }, .ok ())

def readOneLine (transport : Transport) : Transport × Except Failure String :=
  if transport.poisoned then
    (transport, .error (.unread ("this transport desynchronised on an earlier framing fault, " ++
      "so its stream position is unknown and nothing further can be read from it")))
  else
    let (bytes, failed, rest) := readUntil maxLineBytes transport.reader
    let after := { transport with reader := rest }
    if failed then (after, .error (.unread "the read failed"))
    else
      match String.fromUTF8? ⟨bytes.toArray⟩ with
      | none => (after, .error (.unread "stream did not contain valid UTF-8"))
      | some line =>
        if bytes.length = 0 then (after, .error (.unread "the transport closed its stdout"))
        else if bytes.length = maxLineBytes ∧ bytes.getLast? ≠ some newline then
          (after, .error (.unread ("the transport sent 65536 bytes with no newline; a status " ++
            "line is one line, so this is not one")))
        else (after, .ok (Text.trimEndMatches ['\r', '\n'] line))

def line (transport : Transport) : Transport × Except Failure String :=
  match transport.readOneLine with
  | (after, .ok line) => (after, .ok line)
  | (after, .error failure) => ({ after with poisoned := true }, .error failure)

def ask (transport : Transport) (request : String) (body : List UInt8) (broken : Option Nat) :
    Transport × Except Failure String :=
  match transport.send request body broken with
  | (sent, .error failure) => (sent, .error failure)
  | (sent, .ok _) => sent.line

def failStatus (transport : Transport) (failure : ReadFailure) : Transport :=
  if framingFault failure then { transport with poisoned := true } else transport

def shape (transport : Transport) (broken : Option Nat) :
    Transport × Except Failure ShapeReply :=
  match transport.ask "SHAPE\n" [] broken with
  | (after, .error failure) => (after, .error failure)
  | (after, .ok line) =>
    match parseShape line with
    | .error text => (after, .error (.shape text))
    | .ok reply => ({ after with maxRead := reply.maxRead, maxWrite := reply.maxWrite }, .ok reply)

variable (usizeMax : Nat)

def readChunk (transport : Transport) (gpa want : Nat) (broken : Option Nat) :
    Transport × Except Failure (List UInt8) :=
  match transport.ask ("READ " ++ Text.hexUpper gpa ++ " " ++ toString want ++ "\n") [] broken with
  | (after, .error failure) => (after, .error failure)
  | (after, .ok line) =>
    match parseStatus usizeMax line want with
    | .error failure => (after.failStatus failure, .error (.status failure))
    | .ok got =>
      if got ≠ want then
        ({ after with poisoned := true }, .error (.status (.short got want)))
      else
        match readExact got after.reader with
        | (some bytes, rest) => ({ after with reader := rest }, .ok bytes)
        | (none, rest) =>
          ({ after with reader := rest, poisoned := true },
            .error (.status (.sourceError (.unsent got))))

/-- The tail `write_chunk` and `refresh` share: the status line must count `want` bytes. -/
def confirm (transport : Transport) (line : String) (want : Nat) (miscount : Nat → String) :
    Transport × Except Failure Unit :=
  match parseStatus usizeMax line want with
  | .error failure => (transport.failStatus failure, .error (.status failure))
  | .ok got =>
    if got = want then (transport, .ok ())
    else ({ transport with poisoned := true }, .error (.miscounted (miscount got)))

def writeChunk (transport : Transport) (gpa : Nat) (bytes : List UInt8) (broken : Option Nat) :
    Transport × Except Failure Unit :=
  match transport.maxWrite with
  | none => (transport, .error (.withheld "the transport did not advertise guarded writes"))
  | some maxWrite =>
    if bytes.isEmpty ∨ maxWrite < bytes.length then
      (transport, .error (.withheld ("a physical write must contain 1..=" ++ toString maxWrite ++
        " bytes, got " ++ toString bytes.length)))
    else if 0x1000 < gpa % 0x1000 + bytes.length then
      (transport, .error (.withheld "a physical write must remain within one 4 KiB page"))
    else
      match transport.ask
          ("WRITE " ++ Text.hexUpper gpa ++ " " ++ toString bytes.length ++ "\n") bytes broken with
      | (after, .error failure) => (after, .error failure)
      | (after, .ok line) =>
        after.confirm usizeMax line bytes.length fun written =>
          "transport reported writing " ++ toString written ++ " bytes for a " ++
            toString bytes.length ++ "-byte request"

def refresh (transport : Transport) (broken : Option Nat) : Transport × Except Failure Unit :=
  match transport.ask "REFRESH\n" [] broken with
  | (after, .error failure) => (after, .error failure)
  | (after, .ok line) =>
    after.confirm usizeMax line 0 fun count =>
      "transport reported " ++ toString count ++ " bytes for a zero-byte refresh"

end Transport

end WindbgMcp.LiveSource
