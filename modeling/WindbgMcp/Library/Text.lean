import Mathlib.Data.List.Basic

/-! String operations with the conventions of the modelled program's standard
library: Unicode whitespace, ASCII case folding and `#x` formatting.  They work
on the characters of a string, so that every one of them can be evaluated. -/
namespace WindbgMcp.Library.Text

/-- What a scan of a text finds of its characters holds of each: the scan is evaluated
whatever other instances decide the statement. -/
theorem forall_mem_of_all {p : Char → Prop} [DecidablePred p] {text : List Char}
    (h : (text.all fun c => decide (p c)) = true) : ∀ c ∈ text, p c := by
  intro c hc
  exact of_decide_eq_true (List.all_eq_true.mp h c hc)

def isAsciiHexdigit (c : Char) : Bool :=
  c.isDigit || ('a' ≤ c && c ≤ 'f') || ('A' ≤ c && c ≤ 'F')

def hexDigits (value : Nat) : String := String.ofList (Nat.toDigits 16 value)

/-- The alternate form: `0x` and then the digits. -/
def hex (value : Nat) : String := "0x" ++ hexDigits value

theorem digitChar_injective : ∀ digit < 16, ∀ other < 16,
    digit.digitChar = other.digitChar → digit = other := by
  decide

theorem toDigits_injective {value other : Nat}
    (h : Nat.toDigits 16 value = Nat.toDigits 16 other) : value = other := by
  induction value using Nat.strongRecOn generalizing other with
  | ind value ih =>
    rcases Nat.lt_or_ge value 16 with hvalue | hvalue <;>
      rcases Nat.lt_or_ge other 16 with hother | hother
    · rw [Nat.toDigits_of_lt_base hvalue, Nat.toDigits_of_lt_base hother] at h
      exact digitChar_injective _ hvalue _ hother (List.head_eq_of_cons_eq h)
    · rw [Nat.toDigits_of_lt_base hvalue, Nat.toDigits_of_base_le (by decide) hother] at h
      have hlength := congrArg List.length h
      have hpos : 0 < (Nat.toDigits 16 (other / 16)).length := Nat.length_toDigits_pos
      rw [List.length_append, List.length_singleton, List.length_singleton] at hlength
      omega
    · rw [Nat.toDigits_of_lt_base hother, Nat.toDigits_of_base_le (by decide) hvalue] at h
      have hlength := congrArg List.length h
      have hpos : 0 < (Nat.toDigits 16 (value / 16)).length := Nat.length_toDigits_pos
      rw [List.length_append, List.length_singleton, List.length_singleton] at hlength
      omega
    · rw [Nat.toDigits_of_base_le (by decide) hvalue, Nat.toDigits_of_base_le (by decide) hother]
        at h
      obtain ⟨hhigh, hlow⟩ := List.append_inj' h rfl
      have hquotient := ih (value / 16) (Nat.div_lt_self (by omega) (by decide)) hhigh
      have hremainder := digitChar_injective _ (Nat.mod_lt _ (by decide)) _ (Nat.mod_lt _ (by decide))
        (List.head_eq_of_cons_eq hlow)
      omega

theorem hex_injective {value other : Nat} (h : hex value = hex other) : value = other := by
  apply toDigits_injective
  have hchars := congrArg String.toList h
  simpa [hex, hexDigits] using hchars

/-- Hexadecimal digits padded on the left with zeros to at least `width`. -/
def hexPadded (width value : Nat) : String :=
  let digits := Nat.toDigits 16 value
  String.ofList (List.replicate (width - digits.length) '0' ++ digits)

/-- The Unicode `White_Space` property. -/
def isWhitespace (c : Char) : Bool :=
  let code := c.toNat
  (9 ≤ code && code ≤ 13) || code == 0x20 || code == 0x85 || code == 0xa0 ||
    code == 0x1680 || (0x2000 ≤ code && code ≤ 0x200a) || code == 0x2028 ||
    code == 0x2029 || code == 0x202f || code == 0x205f || code == 0x3000

def trimEnd (text : String) : String :=
  String.ofList (text.toList.reverse.dropWhile isWhitespace).reverse

def trim (text : String) : String :=
  trimEnd (String.ofList (text.toList.dropWhile isWhitespace))

def toAsciiLowercase (text : String) : String := String.ofList (text.toList.map Char.toLower)

/-- The pieces between the characters that satisfy `separates`, empty ones kept. -/
def splitChars (separates : Char → Bool) : List Char → List (List Char)
  | [] => [[]]
  | c :: rest =>
    match splitChars separates rest with
    | [] => [[c]]
    | piece :: pieces =>
      if separates c then [] :: piece :: pieces else (c :: piece) :: pieces

def split (separates : Char → Bool) (text : String) : List String :=
  (splitChars separates text.toList).map String.ofList

def firstWord (text : String) : Option String :=
  let word := (text.toList.dropWhile isWhitespace).takeWhile fun c => !isWhitespace c
  if word.isEmpty then none else some (String.ofList word)

/-- Where `pattern` first occurs: what stands before it and what stands behind it. -/
def splitAtFirst (pattern : List Char) : List Char → Option (List Char × List Char)
  | [] => if pattern.isEmpty then some ([], []) else none
  | c :: rest =>
    if pattern.isPrefixOf (c :: rest) then
      some ([], (c :: rest).drop pattern.length)
    else
      (splitAtFirst pattern rest).map fun (before, behind) => (c :: before, behind)

theorem splitAtFirst_append {pattern : List Char} :
    ∀ {text before behind : List Char}, splitAtFirst pattern text = some (before, behind) →
      before ++ pattern ++ behind = text
  | [], before, behind, h => by
    simp only [splitAtFirst, Option.ite_none_right_eq_some, Option.some.injEq, Prod.mk.injEq,
      List.isEmpty_iff] at h
    obtain ⟨rfl, rfl, rfl⟩ := h
    rfl
  | c :: rest, before, behind, h => by
    simp only [splitAtFirst] at h
    split at h
    · rename_i hprefix
      obtain ⟨rfl, rfl⟩ := Prod.mk.inj (Option.some.inj h)
      exact List.prefix_iff_eq_append.mp (List.isPrefixOf_iff_prefix.mp hprefix)
    · obtain ⟨⟨before', behind'⟩, hrest, heq⟩ := Option.map_eq_some_iff.mp h
      obtain ⟨rfl, rfl⟩ := Prod.mk.inj heq
      have := splitAtFirst_append hrest
      simp only [List.cons_append, this]

theorem splitAtFirst_length {pattern text before behind : List Char}
    (h : splitAtFirst pattern text = some (before, behind)) :
    before.length + pattern.length + behind.length = text.length := by
  rw [← splitAtFirst_append h, List.length_append, List.length_append]

def contains (text pattern : String) : Bool :=
  (splitAtFirst pattern.toList text.toList).isSome

/-- The text before the first `separator` and the text behind it. -/
def splitOnce (separator : Char) (text : String) : Option (String × String) :=
  (splitAtFirst [separator] text.toList).map fun (before, behind) =>
    (String.ofList before, String.ofList behind)

def splitWhitespace (text : String) : List String :=
  ((splitChars isWhitespace text.toList).filter fun word => !word.isEmpty).map String.ofList

/-- What stands behind `front`, if the text starts with it. -/
def afterFront (front text : String) : Option String :=
  if front.toList.isPrefixOf text.toList then
    some (String.ofList (text.toList.drop front.toList.length))
  else none

def trimEndMatches (matched : List Char) (text : String) : String :=
  String.ofList (text.toList.reverse.dropWhile matched.contains).reverse

/-- The alternate upper-case form: `0x` and then upper-case digits. -/
def hexUpper (value : Nat) : String :=
  "0x" ++ String.ofList ((Nat.toDigits 16 value).map Char.toUpper)

/-- Where `c` last occurs. -/
def rfind (c : Char) (text : List Char) : Option Nat :=
  (text.reverse.idxOf? c).map fun back => text.length - 1 - back

def hexValue (c : Char) : Option Nat :=
  if '0' ≤ c ∧ c ≤ '9' then some (c.toNat - '0'.toNat)
  else if 'a' ≤ c ∧ c ≤ 'f' then some (c.toNat - 'a'.toNat + 10)
  else if 'A' ≤ c ∧ c ≤ 'F' then some (c.toNat - 'A'.toNat + 10)
  else none

/-- A hexadecimal number of at most `bound`, a leading `+` allowed before a digit. -/
def parseHex (bound : Nat) (text : String) : Option Nat :=
  let digits :=
    match text.toList with
    | '+' :: c :: rest => c :: rest
    | other => other
  if digits.isEmpty then none
  else do
    let values ← digits.mapM hexValue
    let value := values.foldl (fun value digit => value * 16 + digit) 0
    if value ≤ bound then some value else none

/-- A decimal number of at most `bound`, a leading `+` allowed before a digit. -/
def parseUnsigned (bound : Nat) (text : String) : Option Nat :=
  let digits :=
    match text.toList with
    | '+' :: c :: rest => c :: rest
    | other => other
  if digits.isEmpty || !digits.all Char.isDigit then none
  else
    let value := digits.foldl (fun value c => value * 10 + (c.toNat - '0'.toNat)) 0
    if value ≤ bound then some value else none

theorem hexValue_digitChar : ∀ digit < 16, hexValue digit.digitChar = some digit := by
  decide

theorem exists_toDigits (value : Nat) :
    ∃ digits : List Nat, Nat.toDigits 16 value = digits.map Nat.digitChar ∧
      (∀ digit ∈ digits, digit < 16) ∧
      digits.foldl (fun value digit => value * 16 + digit) 0 = value := by
  induction value using Nat.strongRecOn with
  | ind value ih =>
    rcases Nat.lt_or_ge value 16 with hvalue | hvalue
    · refine ⟨[value], Nat.toDigits_of_lt_base hvalue, ?_, by simp⟩
      intro digit hdigit
      rw [List.mem_singleton.mp hdigit]
      exact hvalue
    · obtain ⟨digits, hdigits, hsmall, hfold⟩ :=
        ih (value / 16) (Nat.div_lt_self (by omega) (by decide))
      refine ⟨digits ++ [value % 16], ?_, ?_, ?_⟩
      · rw [Nat.toDigits_of_base_le (by decide) hvalue, hdigits, List.map_append]
        rfl
      · intro digit hdigit
        cases List.mem_append.mp hdigit with
        | inl hmem => exact hsmall digit hmem
        | inr hmem =>
          rw [List.mem_singleton.mp hmem]
          exact Nat.mod_lt _ (by decide)
      · rw [List.foldl_append, hfold]
        simp only [List.foldl_cons, List.foldl_nil]
        omega

theorem mapM_hexValue {digits : List Nat} (hsmall : ∀ digit ∈ digits, digit < 16) :
    (digits.map Nat.digitChar).mapM hexValue = some digits := by
  induction digits with
  | nil => rfl
  | cons digit digits ih =>
    rw [List.map_cons, List.mapM_cons, hexValue_digitChar digit (hsmall digit List.mem_cons_self),
      ih fun later hlater => hsmall later (List.mem_cons_of_mem _ hlater)]
    rfl

theorem foldl_replicate_zero (count : Nat) (digits : List Nat) :
    (List.replicate count 0 ++ digits).foldl (fun value digit => value * 16 + digit) 0 =
      digits.foldl (fun value digit => value * 16 + digit) 0 := by
  induction count with
  | zero => rfl
  | succ count ih =>
    rw [List.replicate_succ, List.cons_append, List.foldl_cons]
    exact ih

theorem digitChar_ne_plus : ∀ digit < 16, digit.digitChar ≠ '+' := by
  decide

theorem parseHex_hexPadded {bound value : Nat} (width : Nat) (hvalue : value ≤ bound) :
    parseHex bound (hexPadded width value) = some value := by
  obtain ⟨digits, hdigits, hsmall, hfold⟩ := exists_toDigits value
  have hpadded : (hexPadded width value).toList =
      (List.replicate (width - (Nat.toDigits 16 value).length) 0 ++ digits).map
        Nat.digitChar := by
    rw [hexPadded, String.toList_ofList, List.map_append, List.map_replicate, ← hdigits]
    rfl
  generalize hall : List.replicate (width - (Nat.toDigits 16 value).length) 0 ++ digits = all
    at hpadded
  have hallsmall : ∀ digit ∈ all, digit < 16 := by
    intro digit hdigit
    rw [← hall, List.mem_append] at hdigit
    cases hdigit with
    | inl hmem => rw [(List.mem_replicate.mp hmem).2]; decide
    | inr hmem => exact hsmall digit hmem
  have hnonempty : all ≠ [] := by
    intro hnil
    have hlength : 0 < (Nat.toDigits 16 value).length := Nat.length_toDigits_pos
    rw [hdigits, List.length_map] at hlength
    have hnone := (List.append_eq_nil_iff.mp (hall.trans hnil)).2
    rw [hnone] at hlength
    exact Nat.lt_irrefl 0 hlength
  have hvalueOf : all.foldl (fun value digit => value * 16 + digit) 0 = value := by
    rw [← hall, foldl_replicate_zero, hfold]
  unfold parseHex
  rw [hpadded]
  cases all with
  | nil => exact absurd rfl hnonempty
  | cons first rest =>
    have hfirst := digitChar_ne_plus first (hallsmall first List.mem_cons_self)
    have hread := mapM_hexValue hallsmall
    rw [List.map_cons] at hread ⊢
    simp only
    split
    · rename_i heq
      exact absurd (List.cons.inj heq).1 hfirst
    · rw [hread]
      simp only [List.isEmpty_cons, Bool.false_eq_true, if_false]
      change (if List.foldl _ 0 (first :: rest) ≤ bound then _ else _) = _
      rw [hvalueOf, if_pos hvalue]

end WindbgMcp.Library.Text
