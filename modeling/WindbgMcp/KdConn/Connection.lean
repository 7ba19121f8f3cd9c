import WindbgMcp.Library.Text

/-! Kernel connection strings (`kdconn.rs`): the parse into a transport prefix and
separated parameters, the two renderings of it, and the endpoint a connection
reserves. -/
namespace WindbgMcp.KdConn
open WindbgMcp.Library

def secretParams : List String := ["key", "password"]

def mask : String := "<redacted>"

def opaqueConnection : String := "<connection redacted>"

def isSecretName (name : String) : Bool :=
  secretParams.any fun param =>
    Text.toAsciiLowercase param == Text.toAsciiLowercase (Text.trim name)

/-- The general category `Cc`. -/
def isControl (c : Char) : Bool :=
  c.toNat ≤ 0x1f || (0x7f ≤ c.toNat && c.toNat ≤ 0x9f)

def isAmbiguous (c : Char) : Bool := Text.isWhitespace c || isControl c

/-- Whether a rendering may include the secrets; `keep` is the one the tests use. -/
inductive Secrets
  | keep
  | mask
  deriving DecidableEq

/-- One item of a connection string.  `separator` is the one that ended it, absent
for the last item. -/
structure Param where
  name : String
  value : Option String
  separator : Option Char
  deriving DecidableEq, Repr

namespace Param

/-- An item splits at its first `=`; one without it is a bare flag. -/
def of (item : List Char) (separator : Option Char) : Param :=
  match Text.splitAtFirst ['='] item with
  | some (name, value) => ⟨String.ofList name, some (String.ofList value), separator⟩
  | none => ⟨String.ofList item, none, separator⟩

def isSecret (param : Param) : Bool := isSecretName param.name

def isBlank (value : String) : Bool := (Text.trim value).isEmpty

def renderValue (param : Param) (secrets : Secrets) (value : String) : String :=
  if secrets = .mask && param.isSecret && !isBlank value then mask else value

def render (param : Param) (secrets : Secrets) (out : String) : String :=
  let out := out ++ param.name
  let out :=
    match param.value with
    | some value => (out.push '=') ++ param.renderValue secrets value
    | none => out
  match param.separator with
  | some c => out.push c
  | none => out

end Param

structure Parsed where
  transport : String
  params : List Param
  deriving DecidableEq, Repr

/-- The transport prefix and the parameter list.  A `:` counts only before the
first `=`; after it it is inside a value. -/
def splitTransport (connection : List Char) : List Char × List Char :=
  let beforeFirstValue := connection.idxOf '='
  match Text.rfind ':' (connection.take beforeFirstValue) with
  | some place => connection.splitAt (place + 1)
  | none => ([], connection)

namespace Parsed

/-- The loop over the characters behind the transport.  `item` is what has been read
since the last separator; there is always one final item, empty when the text
ended on a separator. -/
def items (item : List Char) : List Char → List Param
  | [] => [Param.of item none]
  | c :: rest =>
    if c = ',' ∨ c = ';' then
      Param.of item (some c) :: items [] rest
    else
      items (item ++ [c]) rest

def of (connection : String) : Parsed :=
  let (transport, rest) := splitTransport connection.toList
  ⟨String.ofList transport, items [] rest⟩

def render (parsed : Parsed) (secrets : Secrets) : String :=
  parsed.params.foldl (fun out param => param.render secrets out) parsed.transport

end Parsed

def redact (connection : String) : String :=
  if connection.toList.any isAmbiguous then opaqueConnection
  else (Parsed.of connection).render .mask

/-- A raw connection string; the text itself is only handed to the engine. -/
structure Connection where
  raw : String
  deriving DecidableEq

namespace Connection

def redacted (connection : Connection) : String := redact connection.raw

def display (connection : Connection) : String := connection.redacted

/-- The `Debug` form.  `quoted` stands for the formatter's `{:?}` of a string. -/
def debug (quoted : String → String) (connection : Connection) : String :=
  "Connection(" ++ quoted connection.redacted ++ ")"

end Connection

inductive Endpoint
  | net (port : Nat)
  | pipe (name : String)
  | unknown
  deriving DecidableEq, Repr

def Endpoint.conflicts (endpoint other : Endpoint) : Bool :=
  endpoint == .unknown || other == .unknown || endpoint == other

def eqIgnoreAsciiCase (text other : String) : Bool :=
  Text.toAsciiLowercase text == Text.toAsciiLowercase other

/-- The parameters called `port`; a connection that repeats it reserves nothing known. -/
def Parsed.ports (parsed : Parsed) : List Param :=
  parsed.params.filter fun param => eqIgnoreAsciiCase param.name "port"

def Connection.endpoint (connection : Connection) : Endpoint :=
  let parsed := Parsed.of connection.raw
  if eqIgnoreAsciiCase parsed.transport "com:" &&
      parsed.params.any (fun param =>
        eqIgnoreAsciiCase param.name "pipe" && param.value.isNone) then
    match parsed.ports with
    | [port] =>
      match port.value.filter fun value => !value.isEmpty with
      | some value => .pipe (Text.toAsciiLowercase value)
      | none => .unknown
    | _ => .unknown
  else if !eqIgnoreAsciiCase parsed.transport "net:" then
    .unknown
  else
    match parsed.ports with
    | [port] =>
      match (port.value.bind (Text.parseUnsigned 65535)).filter fun number => number != 0 with
      | some number => .net number
      | none => .unknown
    | _ => .unknown

end WindbgMcp.KdConn
