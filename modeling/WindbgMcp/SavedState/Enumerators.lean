import Mathlib.Algebra.Order.Ring.Int
import WindbgMcp.SavedState.RegisterIds

/-! What C makes of the enum: comments are blanks, commas part the enumerators, and each is one
more than the one before it unless it is given a value. -/
namespace WindbgMcp.SavedState
open Library Library.Text

/-- Where in a text a character stands: behind a slash that may open a comment, in a comment
and there behind a star, in a character constant and there behind a backslash, or elsewhere. -/
inductive Within
  | code | slash | line | block | star | quoted | escaped
  deriving DecidableEq, Repr

/-- The enumerators so far, and the text of the one being read. -/
structure Scan where
  within : Within := .code
  depth : Nat := 0
  piece : List Char := []
  done : List (List Char) := []
  deriving DecidableEq, Repr

namespace Scan

def push (scan : Scan) (c : Char) : Scan := { scan with piece := scan.piece ++ [c] }

def inside (scan : Scan) (within : Within) : Scan := { scan with within }

def quoteMark : Char := Char.ofNat 39

def code (scan : Scan) (c : Char) : Scan :=
  if c = '/' then scan.inside .slash
  else if c = ',' ∧ scan.depth = 0 then
    { scan with piece := [], done := scan.done ++ [scan.piece] }
  else if c = '(' then { scan.push c with depth := scan.depth + 1 }
  else if c = ')' then { scan.push c with depth := scan.depth - 1 }
  else if c = quoteMark then (scan.push c).inside .quoted
  else scan.push c

def step (scan : Scan) (c : Char) : Scan :=
  match scan.within with
  | .code => scan.code c
  | .slash =>
    if c = '/' then scan.inside .line
    else if c = '*' then (scan.push ' ').inside .block
    else ((scan.push '/').inside .code).code c
  | .line => if c = '\n' then (scan.push c).inside .code else scan
  | .block => if c = '*' then scan.inside .star else scan
  | .star =>
    if c = '/' then scan.inside .code
    else if c = '*' then scan
    else scan.inside .block
  | .quoted =>
    if c = quoteMark then (scan.push c).inside .code
    else if c = '\\' then (scan.push c).inside .escaped
    else scan.push c
  | .escaped => (scan.push c).inside .quoted

def run (scan : Scan) (text : List Char) : Scan := text.foldl step scan

end Scan

def Blank (text : List Char) : Prop := ∀ c ∈ text, isWhitespace c = true

instance (text : List Char) : Decidable (Blank text) :=
  decidable_of_iff (text.all isWhitespace = true) List.all_eq_true

def enumerator (piece : List Char) : Option Entry :=
  let declared := declarator (trimmed piece)
  if isName declared.1 ∧ declared.2 ≠ some [] then some declared else none

def enumerators (body : List Char) : Option (List Entry) :=
  let scan := Scan.run {} body
  if scan.within = .code ∧ scan.depth = 0 then
    (if Blank scan.piece then scan.done else scan.done ++ [scan.piece]).mapM enumerator
  else none

def digitsValue (base : Nat) (digits : List Nat) : Nat :=
  digits.foldl (fun value digit => value * base + digit) 0

def literalValue : List Char → Option Nat
  | '0' :: 'x' :: c :: rest => ((c :: rest).mapM hexValue).map (digitsValue 16)
  | '0' :: 'X' :: c :: rest => ((c :: rest).mapM hexValue).map (digitsValue 16)
  | '0' :: rest =>
    if rest.all fun c => '0' ≤ c ∧ c ≤ '7' then
      some (digitsValue 8 (rest.map fun c => c.toNat - '0'.toNat))
    else none
  | c :: rest =>
    if (c :: rest).all Char.isDigit then
      some (digitsValue 10 ((c :: rest).map fun c => c.toNat - '0'.toNat))
    else none
  | [] => none

/-- The enumerators with their values, counted on from `next`. -/
def countOn (evaluate : List Char → Int) : Int → List Entry → List (List Char × Int)
  | _, [] => []
  | next, (name, initialiser) :: rest =>
    let value := initialiser.elim next evaluate
    (name, value) :: countOn evaluate (value + 1) rest

/-- A header that declares the enum, and what C makes of it: `evaluate` is the value of an
initialiser, which for a literal is the literal's. -/
structure Declaration where
  front : List Char
  gap : List Char
  body : List Char
  back : List Char
  enumerators : List Entry
  evaluate : List Char → Int
  apart : (Scan.run {} gap).within = .code ∧ (Scan.run {} gap).done = [] ∧
    Blank (Scan.run {} gap).piece
  reads : SavedState.enumerators body = some enumerators
  distinct : (enumerators.map Prod.fst).Nodup
  literal : ∀ text value, literalValue text = some value → evaluate text = value
  representable : ∀ named ∈ countOn evaluate 0 enumerators,
    -2 ^ 31 ≤ named.2 ∧ named.2 < 2 ^ 31

namespace Declaration

def text (declaration : Declaration) : List Char :=
  declaration.front ++ enumMark ++ declaration.gap ++ '\x7b' ::
    (declaration.body ++ closeMark ++ declaration.back)

def values (declaration : Declaration) : List (List Char × Int) :=
  countOn declaration.evaluate 0 declaration.enumerators

def Exact (declaration : Declaration) (header : String) : Prop :=
  (∃ error, registerIds header (.ok declaration.text) = .error error) ∨
    ∃ ids, registerIds header (.ok declaration.text) = .ok ids ∧
      ∀ named ∈ declaration.values, ∃ id : Nat,
        ids.lookup named.1 = some id ∧ (id : Int) = named.2

end Declaration

end WindbgMcp.SavedState
