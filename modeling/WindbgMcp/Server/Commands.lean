import WindbgMcp.Library.Text

/-! What the server reads in debugger text: evaluated values, addresses, and the
commands that release or replace the debug target. -/
namespace WindbgMcp.Server

open Library

def hexDigitValue (c : Char) : Nat :=
  if c.isDigit then c.toNat - '0'.toNat
  else if 'a' ≤ c && c ≤ 'f' then c.toNat - 'a'.toNat + 10
  else c.toNat - 'A'.toNat + 10

/-- `u64::from_str_radix` on a non-empty run of hexadecimal digits. -/
def u64FromHex (digits : List Char) : Option Nat :=
  let value := digits.foldl (fun value c => value * 16 + hexDigitValue c) 0
  if value < 0x10000000000000000 then some value else none

/-- At least eight digits, so that no mnemonic, short immediate or label is taken
for an address. -/
def parseWindbgAddr (token : String) : Option Nat :=
  let wraps := fun c => c == '(' || c == ')' || c == ','
  let inner := ((token.toList.dropWhile wraps).reverse.dropWhile wraps).reverse
  let cleaned := inner.filter (· != '\x60')
  if cleaned.length < 8 || !cleaned.all Text.isAsciiHexdigit then none else u64FromHex cleaned

/-- The value of `Evaluate expression: 123 = 00000000'0000007b`: the token after
the equals sign. -/
def parseEval (text : String) : Option Nat := do
  let rhs ← (Text.split (· == '=') text)[1]?
  let token ← Text.firstWord rhs
  parseWindbgAddr token

def fmtAddr (address : Nat) : String :=
  Text.hexPadded 8 (address / 0x100000000) ++ "`" ++ Text.hexPadded 8 (address % 0x100000000)

/-- Both `;` and a line break end a debugger command. -/
def endsCommand (c : Char) : Bool := c == ';' || c == '\n' || c == '\r'

def retiresSession : List String :=
  [".opendump", ".attach", ".detach", ".kill", ".restart", ".create", ".abandon", ".remote", "q",
    "qd", "qq"]

def changesDebugTarget (command : String) : Bool :=
  (Text.split endsCommand command).any fun segment =>
    (Text.firstWord segment).any fun first => retiresSession.contains (Text.toAsciiLowercase first)

def controls (segment : List Char) : Bool :=
  (Text.firstWord (String.ofList segment)).any fun first =>
    retiresSession.contains (Text.toAsciiLowercase first)

theorem changesDebugTarget_eq (command : String) :
    changesDebugTarget command = (Text.splitChars endsCommand command.toList).any controls := by
  rw [changesDebugTarget, Text.split, List.any_map]
  rfl

theorem not_retires_of_mem {word : List Char} {mark : Char} (hmem : mark ∈ word)
    (hlower : mark.toLower = mark) (hnone : ∀ command ∈ retiresSession, mark ∉ command.toList) :
    retiresSession.contains (Text.toAsciiLowercase (String.ofList word)) = false := by
  have hmapped : mark ∈ (Text.toAsciiLowercase (String.ofList word)).toList := by
    rw [Text.toAsciiLowercase, String.toList_ofList, String.toList_ofList]
    exact List.mem_map.mpr ⟨mark, hmem, hlower⟩
  apply Bool.eq_false_iff.mpr
  intro hcontains
  exact hnone _ (List.contains_iff_mem.mp hcontains) hmapped

inductive Quotes where
  | allowed
  | rejected
deriving DecidableEq, Repr

def rejectCommandBreakers (field value : String) (quotes : Quotes) : Except String Unit :=
  match value.toList.find? fun c => endsCommand c || quotes == .rejected && c == '\x22' with
  | none => .ok ()
  | some bad =>
    let what := if bad = ';' then "a `;`" else if bad = '\x22' then "a `\x22`" else "a line break"
    .error ("`" ++ field ++ "` contains " ++ what ++ ", which would end the command this tool builds around it and let the rest run as a separate command. This parameter takes a single operand. Use `execute` if you meant to run a command list — it is annotated as destructive and retires the session handle when a command replaces the target.")

end WindbgMcp.Server
