import Mathlib.Algebra.Order.Ring.Nat
import WindbgMcp.Cast.Frame

/-! The register ids of an SDK header (`savedstate.rs`).  They are positional in an enum, which
is read a line at a time: a line is an entry, or is passed over.  Texts are lists of
characters. -/
namespace WindbgMcp.SavedState
open Library Library.Text
open Cast (lines)

def trimmed (text : List Char) : List Char :=
  ((text.dropWhile isWhitespace).reverse.dropWhile isWhitespace).reverse

def withoutCommas (text : List Char) : List Char := (text.reverse.dropWhile (· = ',')).reverse

abbrev Entry := List Char × Option (List Char)

def isNameChar (c : Char) : Bool := c.isAlphanum || c == '_'

def isName (name : List Char) : Bool :=
  !name.isEmpty && name.all isNameChar && !(name.head?.any Char.isDigit)

def declarator (text : List Char) : Entry :=
  match splitAtFirst ['='] text with
  | some (name, value) => (trimmed name, some (trimmed value))
  | none => (text, none)

def readLine (line : List Char) : Option Entry :=
  let line := ((splitAtFirst ['/', '/'] line).map (·.1)).getD line
  let line := trimmed (withoutCommas (trimmed line))
  if line = [] ∨ line.head? = some '/' ∨ line.head? = some '*' ∨ line.head? = some '#' then none
  else if isName (declarator line).1 then some (declarator line)
  else none

def maxId : Nat := 2 ^ 32 - 1

def readValue (value : List Char) : Option Nat :=
  let value := String.ofList value
  match (afterFront "0x" value).or (afterFront "0X" value) with
  | some hex => parseHex maxId hex
  | none => parseUnsigned maxId value

abbrev Ids := List (List Char × Nat)

def unevaluated (name value : List Char) : String :=
  "REGISTER_ID entry `" ++ String.ofList name ++
    "` has a value this parser cannot evaluate (`" ++ String.ofList value ++
    "`), so every id after it would be wrong"

/-- One entry: its value sets the count, which is an `u32` and wraps. -/
def addEntry (counted : Ids × Nat) (entry : Entry) : Except String (Ids × Nat) :=
  let (ids, next) := counted
  match entry.2 with
  | none => .ok ((entry.1, next) :: ids, (next + 1) % 2 ^ 32)
  | some value =>
    match readValue value with
    | some next => .ok ((entry.1, next) :: ids, (next + 1) % 2 ^ 32)
    | none => .error (unevaluated entry.1 value)

def enumMark : List Char := "typedef enum REGISTER_ID".toList
def closeMark : List Char := "\x7d REGISTER_ID;".toList

def enumBody (header : String) (text : List Char) : Except String (List Char) :=
  match splitAtFirst enumMark text with
  | none => .error ("REGISTER_ID enum not found in " ++ header)
  | some (_, behind) =>
    match splitAtFirst ['\x7b'] (enumMark ++ behind) with
    | none => .error ("REGISTER_ID enum has no body in " ++ header)
    | some (_, body) =>
      match splitAtFirst closeMark body with
      | none => .error ("REGISTER_ID enum is unterminated in " ++ header)
      | some (body, _) => .ok body

def registerIds (header : String) (text : Except String (List Char)) : Except String Ids := do
  let text ← text.mapError fun error => header ++ ": " ++ error
  let body ← enumBody header text
  let (ids, _) ← ((lines body).filterMap readLine).foldlM addEntry ([], 0)
  if ids = [] then .error ("REGISTER_ID enum in " ++ header ++ " parsed to nothing") else pure ids

end WindbgMcp.SavedState
