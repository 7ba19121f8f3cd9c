import WindbgMcp.Library.Utf8
import WindbgMcp.Library.Masking
import WindbgMcp.KdConn.Connection

/-! Secrets in arbitrary text (`kdconn.rs`): the values this process has been given, and
the scan for a parameter that names one.  Offsets count bytes, and a slice off a
character boundary ends the run; the scan is also given over the characters that are
left, and the two agree. -/
namespace WindbgMcp.KdConn
open WindbgMcp.Library

def maskableSecret : Nat := 6

structure Secret where
  value : String
  long : maskableSecret ≤ Utf8.byteLen value.toList

theorem Secret.toList_ne_nil (secret : Secret) : secret.value.toList ≠ [] := by
  have hlong := secret.long
  intro hnil
  rw [hnil] at hlong
  exact absurd hlong (by decide)

def Secret.pattern (secret : Secret) : { pattern : List Char // pattern ≠ [] } :=
  ⟨secret.value.toList, secret.toList_ne_nil⟩

def maskKnownValues (known : List Secret) (text : List Char) : List Char :=
  let present := known.filter fun secret =>
    (Text.splitAtFirst secret.value.toList text).isSome
  let ordered := present.mergeSort fun secret other =>
    Utf8.byteLen other.value.toList ≤ Utf8.byteLen secret.value.toList
  ordered.foldl (fun out secret => Text.replaceAll secret.pattern mask.toList out) text

def nameChar (isAlphanumeric : Char → Bool) (c : Char) : Bool :=
  isAlphanumeric c || c == '_' || c == '-'

def isFiller (c : Char) : Bool := c == ' ' || c == '\t'

def endsValue (c : Char) : Bool :=
  Text.isWhitespace c || [',', ';', '"', '}', ']'].contains c

def untilQuote : Bool → List Char → List Char
  | _, [] => []
  | true, c :: rest => c :: untilQuote false rest
  | false, c :: rest =>
    if c = '\\' then c :: untilQuote true rest
    else if c = '"' then []
    else c :: untilQuote false rest

def quotedValue (body : List Char) (escaped : Bool) : List Char :=
  if escaped then
    match Text.splitAtFirst ['\\', '"'] body with
    | some (value, _) => value
    | none => body
  else untilQuote false body

def closingQuote (body : List Char) (escaped : Bool) : Nat :=
  Utf8.byteLen (quotedValue body escaped)

def unquotedValue (body : List Char) : List Char := body.takeWhile fun c => !endsValue c

def isName (name : String) (text : List Char) : Bool :=
  eqIgnoreAsciiCase (String.ofList text) name

def inlineGap (text : List Char) («at» : Nat) : Option Nat :=
  (Utf8.sliceFrom text «at»).map fun rest => (rest.takeWhile isFiller).length

section Scan
variable (isAlphanumeric : Char → Bool)

/-- A secret parameter starting at a byte offset: where its value starts and where it
ends.  The outer `none` is a slice off a character boundary. -/
def secretAt (text : List Char) (i : Nat) : Option (Option (Nat × Nat)) := do
  let rest ← Utf8.sliceFrom text i
  match secretParams.find? fun param =>
      (Utf8.sliceTo rest (Utf8.byteLen param.toList)).any (isName param) with
  | none => return none
  | some name =>
    let front ← Utf8.sliceTo text i
    if front.getLast?.any (nameChar isAlphanumeric) then return none
    let «at» := i + Utf8.byteLen name.toList
    let afterName ← Utf8.sliceFrom text «at»
    let escapedName := ['\\', '"'].isPrefixOf afterName
    let quotedName := escapedName || ['"'].isPrefixOf afterName
    let «at» := «at» + quotedName.toNat + escapedName.toNat
    let «at» := «at» + (← inlineGap text «at»)
    match (← Utf8.sliceFrom text «at»).head? with
    | none => return none
    | some separator =>
      if !quotedName && separator == '=' || quotedName && separator == ':' then
        let «at» := «at» + 1
        let «at» := «at» + (← inlineGap text «at»)
        let afterGap ← Utf8.sliceFrom text «at»
        let escapedValue := ['\\', '"'].isPrefixOf afterGap
        let quoted := escapedValue || ['"'].isPrefixOf afterGap
        let start := «at» + quoted.toNat + escapedValue.toNat
        let body ← Utf8.sliceFrom text start
        let len :=
          if quoted then closingQuote body escapedValue
          else Utf8.byteLen (unquotedValue body)
        return if 0 < len then some (start, start + len) else none
      else return none

/-- The scanning loop, for at most `fuel` turns. -/
def scanFrom (text : List Char) : (fuel i : Nat) → (out : List Char) → Option (List Char)
  | 0, _, _ => none
  | fuel + 1, i, out =>
    if i < Utf8.byteLen text then do
      match ← secretAt isAlphanumeric text i with
      | some (value, stop) =>
        scanFrom text fuel stop (out ++ (← Utf8.slice text i value) ++ mask.toList)
      | none =>
        let step := (← Utf8.sliceFrom text i).head?.elim 1 Char.utf8Size
        scanFrom text fuel (i + step) (out ++ (← Utf8.slice text i (i + step)))
    else some out

def scrub (known : List Secret) (text : String) : Option String :=
  let masked := maskKnownValues known text.toList
  (scanFrom isAlphanumeric masked (Utf8.byteLen masked + 1) 0 []).map String.ofList

def quoteOf : List Char → List Char
  | '\\' :: '"' :: _ => ['\\', '"']
  | '"' :: _ => ['"']
  | _ => []

def valueOf (quote body : List Char) : List Char :=
  if quote.isEmpty then unquotedValue body else quotedValue body (quote.length == 2)

def separatorOf (nameQuote : List Char) : Char := if nameQuote.isEmpty then '=' else ':'

/-- What stands between a name and its value, the value's opening quote, and what follows. -/
structure Opening where
  between : List Char
  quote : List Char
  body : List Char

def openingOf (afterName : List Char) : Option Opening :=
  let nameQuote := quoteOf afterName
  let afterQuote := afterName.drop nameQuote.length
  match afterQuote.dropWhile isFiller with
  | [] => none
  | separator :: afterSeparator =>
    if separator = separatorOf nameQuote then
      let afterGap := afterSeparator.dropWhile isFiller
      let quote := quoteOf afterGap
      some
        { between := nameQuote ++ (afterQuote.takeWhile isFiller ++
            separator :: afterSeparator.takeWhile isFiller)
          quote := quote
          body := afterGap.drop quote.length }
    else none

/-- A text with a secret value in it: what stands in front, the value, what is left. -/
structure Found where
  front : List Char
  value : List Char
  behind : List Char

/-- `secretAt` over the character before and the characters left. -/
def secretIn (before : Option Char) (rest : List Char) : Option Found :=
  match secretParams.find? fun param =>
      isName param (rest.take param.toList.length) with
  | none => none
  | some name =>
    if before.any (nameChar isAlphanumeric) then none
    else
      match openingOf (rest.drop name.toList.length) with
      | none => none
      | some opening =>
        let value := valueOf opening.quote opening.body
        if value.isEmpty then none
        else some
          { front := rest.take name.toList.length ++ (opening.between ++ opening.quote)
            value := value
            behind := opening.body.drop value.length }

end Scan

end WindbgMcp.KdConn
