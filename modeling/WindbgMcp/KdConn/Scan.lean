import Mathlib.Data.List.Find
import Mathlib.Data.List.TakeWhile
import WindbgMcp.KdConn.Scrub

/-! The scan over the characters left, and that the byte offsets of the code compute it:
every offset it slices at is a boundary, and every turn gets further. -/
namespace WindbgMcp.KdConn
open WindbgMcp.Library

theorem quoteOf_append (text : List Char) :
    quoteOf text ++ text.drop (quoteOf text).length = text := by
  fun_cases quoteOf text <;> rfl

theorem quoteOf_cases (text : List Char) :
    (quoteOf text = ['\\', '"'] ∧ ∃ rest, text = '\\' :: '"' :: rest) ∨
    (quoteOf text = ['"'] ∧ ∃ rest, text = '"' :: rest) ∨
    (quoteOf text = [] ∧ ¬['\\', '"'] <+: text ∧ ¬['"'] <+: text) := by
  fun_cases quoteOf text with
  | case1 rest => exact Or.inl ⟨rfl, rest, rfl⟩
  | case2 rest => exact Or.inr (Or.inl ⟨rfl, rest, rfl⟩)
  | case3 text hescaped hplain =>
    refine Or.inr (Or.inr ⟨rfl, ?_, ?_⟩)
    · rintro ⟨rest, rfl⟩
      exact hescaped rest rfl
    · rintro ⟨rest, rfl⟩
      exact hplain rest rfl

theorem untilQuote_prefix (afterBackslash : Bool) (body : List Char) :
    untilQuote afterBackslash body <+: body := by
  fun_induction untilQuote afterBackslash body with
  | case1 => exact List.prefix_refl _
  | case2 c rest ih => exact List.cons_prefix_cons.mpr ⟨rfl, ih⟩
  | case3 rest ih => exact List.cons_prefix_cons.mpr ⟨rfl, ih⟩
  | case4 => exact List.nil_prefix
  | case5 c rest _ _ ih => exact List.cons_prefix_cons.mpr ⟨rfl, ih⟩

theorem quotedValue_prefix (body : List Char) (escaped : Bool) :
    quotedValue body escaped <+: body := by
  unfold quotedValue
  split
  · split
    case h_1 value behind hsplit =>
      have happend := Text.splitAtFirst_append hsplit
      rw [List.append_assoc] at happend
      exact ⟨_, happend⟩
    case h_2 => exact List.prefix_refl _
  · exact untilQuote_prefix false body

theorem valueOf_append (quote body : List Char) :
    valueOf quote body ++ body.drop (valueOf quote body).length = body := by
  apply List.prefix_iff_eq_append.mp
  unfold valueOf unquotedValue
  split
  · exact List.takeWhile_prefix _
  · exact quotedValue_prefix _ _

/-- An opening is there when the name's quote, some filler and the separator are. -/
theorem openingOf_eq_some {afterName : List Char} {opening : Opening} :
    openingOf afterName = some opening ↔
      ∃ afterQuote afterSeparator,
        afterName = quoteOf afterName ++ afterQuote ∧
        afterQuote.dropWhile isFiller = separatorOf (quoteOf afterName) :: afterSeparator ∧
        opening =
          { between := quoteOf afterName ++ (afterQuote.takeWhile isFiller ++
              separatorOf (quoteOf afterName) :: afterSeparator.takeWhile isFiller)
            quote := quoteOf (afterSeparator.dropWhile isFiller)
            body := (afterSeparator.dropWhile isFiller).drop
              (quoteOf (afterSeparator.dropWhile isFiller)).length } := by
  have hquote := quoteOf_append afterName
  constructor
  · intro h
    refine ⟨afterName.drop (quoteOf afterName).length, ?_⟩
    unfold openingOf at h
    dsimp only at h
    split at h
    case h_1 => cases h
    case h_2 separator afterSeparator hdrop =>
      split at h
      case isFalse => cases h
      case isTrue hseparator =>
        subst hseparator
        exact ⟨afterSeparator, hquote.symm, hdrop, (Option.some.inj h).symm⟩
  · rintro ⟨afterQuote, afterSeparator, hafter, hdrop, rfl⟩
    have hrest : afterName.drop (quoteOf afterName).length = afterQuote := by
      exact List.append_cancel_left (hquote.trans hafter)
    unfold openingOf
    dsimp only
    rw [hrest, hdrop]
    dsimp only
    rw [if_pos rfl]

theorem openingOf_append {afterName : List Char} {opening : Opening}
    (h : openingOf afterName = some opening) :
    opening.between ++ (opening.quote ++ opening.body) = afterName := by
  obtain ⟨afterQuote, afterSeparator, hafter, hdrop, rfl⟩ := openingOf_eq_some.mp h
  conv => rhs; rw [hafter, ← List.takeWhile_append_dropWhile (p := isFiller) (l := afterQuote),
    hdrop, ← List.takeWhile_append_dropWhile (p := isFiller) (l := afterSeparator)]
  rw [quoteOf_append]
  simp only [List.append_assoc, List.cons_append]

section Scan
variable {isAlphanumeric : Char → Bool} {before : Option Char} {rest : List Char}

def nameIn (rest : List Char) : Option String :=
  secretParams.find? fun param => isName param (rest.take param.toList.length)

theorem secretIn_eq_some {found : Found} :
    secretIn isAlphanumeric before rest = some found ↔
      ∃ name opening, nameIn rest = some name ∧
        before.any (nameChar isAlphanumeric) = false ∧
        openingOf (rest.drop name.toList.length) = some opening ∧
        valueOf opening.quote opening.body ≠ [] ∧
        found =
          { front := rest.take name.toList.length ++ (opening.between ++ opening.quote)
            value := valueOf opening.quote opening.body
            behind := opening.body.drop (valueOf opening.quote opening.body).length } := by
  unfold secretIn
  constructor
  · intro h
    split at h
    case h_1 => cases h
    case h_2 name hname =>
      split at h
      case isTrue => cases h
      case isFalse hbefore =>
        split at h
        case h_1 => cases h
        case h_2 opening hopening =>
          dsimp only at h
          split at h
          case isTrue => cases h
          case isFalse hvalue =>
            refine ⟨name, opening, hname, Bool.eq_false_iff.mpr hbefore, hopening, ?_,
              (Option.some.inj h).symm⟩
            intro hnil
            exact hvalue (List.isEmpty_iff.mpr hnil)
  · rintro ⟨name, opening, hname, hbefore, hopening, hvalue, rfl⟩
    have hfind : secretParams.find? (fun param => isName param (rest.take param.toList.length)) =
        some name := hname
    rw [hfind]
    dsimp only
    rw [hbefore, if_neg Bool.false_ne_true, hopening]
    dsimp only
    rw [if_neg fun hnil => hvalue (List.isEmpty_iff.mp hnil)]

theorem secretIn_append {found : Found} (h : secretIn isAlphanumeric before rest = some found) :
    rest = found.front ++ (found.value ++ found.behind) ∧ found.value ≠ [] := by
  obtain ⟨name, opening, _, _, hopening, hvalue, rfl⟩ := secretIn_eq_some.mp h
  constructor
  · simp only [List.append_assoc]
    rw [valueOf_append, openingOf_append hopening, List.take_append_drop]
  · exact hvalue

variable (isAlphanumeric)

/-- The scan over the characters left; `before` is the one in front of them. -/
def scan (before : Option Char) (rest : List Char) : List Char :=
  match rest with
  | [] => []
  | c :: tail =>
    match _hfound : secretIn isAlphanumeric before (c :: tail) with
    | some found => found.front ++ (mask.toList ++ scan found.value.getLast? found.behind)
    | none => c :: scan (some c) tail
termination_by rest.length
decreasing_by
  · have hsplit := secretIn_append _hfound
    have hlength := congrArg List.length hsplit.1
    have hpos := List.length_pos_iff.mpr hsplit.2
    simp only [List.length_append, List.length_cons] at hlength ⊢
    omega
  · simp only [List.length_cons]
    omega

variable {isAlphanumeric}

theorem scan_of_found {c : Char} {tail : List Char} {found : Found}
    (h : secretIn isAlphanumeric before (c :: tail) = some found) :
    scan isAlphanumeric before (c :: tail) =
      found.front ++ (mask.toList ++ scan isAlphanumeric found.value.getLast? found.behind) := by
  rw [scan]
  split
  · simp_all
  · simp_all

theorem scan_of_none {c : Char} {tail : List Char}
    (h : secretIn isAlphanumeric before (c :: tail) = none) :
    scan isAlphanumeric before (c :: tail) = c :: scan isAlphanumeric (some c) tail := by
  rw [scan]
  split
  · simp_all
  · simp_all

@[simp] theorem scan_nil : scan isAlphanumeric before [] = [] := by
  rw [scan]

end Scan

/-! The byte offsets -/

theorem isName_iff {name : String} {text : List Char} :
    isName name text = true ↔ text.map Char.toLower = name.toList.map Char.toLower := by
  unfold isName eqIgnoreAsciiCase Text.toAsciiLowercase
  rw [beq_iff_eq, String.toList_ofList]
  constructor
  · exact String.ofList_injective
  · exact congrArg String.ofList

theorem utf8Size_of_toLower {c : Char} (h : c.toLower.toNat < 128) : c.utf8Size = 1 := by
  have hsmall : c.val.toNat < 128 := by
    unfold Char.toLower at h
    split at h
    case isTrue hupper =>
      have hle : c.val.toNat ≤ 90 := hupper.2
      omega
    case isFalse => exact h
  have hle : c.val ≤ 127 := by
    rw [UInt32.le_iff_toNat_le]
    exact Nat.le_of_lt_succ hsmall
  exact if_pos hle

theorem byteLen_eq_length {text : List Char} (h : ∀ c ∈ text, c.utf8Size = 1) :
    Utf8.byteLen text = text.length := by
  induction text with
  | nil => rfl
  | cons c rest ih =>
    rw [Utf8.byteLen_cons, h c List.mem_cons_self,
      ih fun later hlater => h later (List.mem_cons_of_mem _ hlater), List.length_cons,
      Nat.add_comm]

theorem secretParams_ascii : ∀ name ∈ secretParams, ∀ c ∈ name.toList,
    c.utf8Size = 1 ∧ c.toLower.toNat < 128 := by
  intro name hname
  apply Text.forall_mem_of_all
  revert name
  decide

theorem isName_length {name : String} {text : List Char} (h : isName name text = true) :
    text.length = name.toList.length := by
  have hmap := congrArg List.length (isName_iff.mp h)
  rw [List.length_map, List.length_map] at hmap
  exact hmap

theorem isName_byteLen {name : String} {text : List Char} (hname : name ∈ secretParams)
    (h : isName name text = true) : Utf8.byteLen text = Utf8.byteLen name.toList := by
  have hascii := secretParams_ascii name hname
  rw [byteLen_eq_length, byteLen_eq_length fun c hc => (hascii c hc).1, isName_length h]
  intro c hc
  have hlower : c.toLower ∈ name.toList.map Char.toLower := by
    rw [← isName_iff.mp h]
    exact List.mem_map_of_mem hc
  obtain ⟨letter, hletter, heq⟩ := List.mem_map.mp hlower
  apply utf8Size_of_toLower
  rw [← heq]
  exact (hascii letter hletter).2

/-- Whether a name stands at an offset is settled by as many characters as it has. -/
theorem any_isName {name : String} (hname : name ∈ secretParams) (rest : List Char) :
    (Utf8.sliceTo rest (Utf8.byteLen name.toList)).any (isName name) =
      isName name (rest.take name.toList.length) := by
  rw [Bool.eq_iff_iff]
  constructor
  · intro h
    rw [Option.any_eq_true] at h
    obtain ⟨text, hslice, htext⟩ := h
    rw [Utf8.sliceTo, Option.map_eq_some_iff] at hslice
    obtain ⟨⟨front, back⟩, hcut, rfl⟩ := hslice
    obtain ⟨rfl, _⟩ := Utf8.cut_eq_some hcut
    rw [List.take_left' (isName_length htext)]
    exact htext
  · intro h
    have hsplit := List.take_append_drop name.toList.length rest
    have hslice := Utf8.sliceTo_byteLen (rest.take name.toList.length)
      (rest.drop name.toList.length)
    rw [hsplit, isName_byteLen hname h] at hslice
    rw [hslice]
    exact h

theorem find?_isName (rest : List Char) :
    secretParams.find? (fun param =>
      (Utf8.sliceTo rest (Utf8.byteLen param.toList)).any (isName param)) = nameIn rest := by
  apply List.find?_congr
  intro name hname
  exact any_isName hname rest

/-- The characters `rest` are what stands behind byte `i`. -/
def Stands (text : List Char) (i : Nat) (rest : List Char) : Prop :=
  ∃ front, text = front ++ rest ∧ i = Utf8.byteLen front

theorem Stands.sliceFrom {text rest : List Char} {i : Nat} (stands : Stands text i rest) :
    Utf8.sliceFrom text i = some rest := by
  obtain ⟨front, rfl, rfl⟩ := stands
  exact Utf8.sliceFrom_byteLen front rest

theorem Stands.next {text read rest : List Char} {i : Nat}
    (stands : Stands text i (read ++ rest)) : Stands text (i + Utf8.byteLen read) rest := by
  obtain ⟨front, rfl, rfl⟩ := stands
  exact ⟨front ++ read, (List.append_assoc ..).symm, (Utf8.byteLen_append front read).symm⟩

theorem Stands.inlineGap {text rest : List Char} {i : Nat} (stands : Stands text i rest) :
    inlineGap text i = some (Utf8.byteLen (rest.takeWhile isFiller)) := by
  unfold KdConn.inlineGap
  rw [stands.sliceFrom, Option.map_some, byteLen_eq_length]
  intro c hc
  have hfiller := List.mem_takeWhile_imp hc
  unfold isFiller at hfiller
  rcases Bool.or_eq_true_iff.mp hfiller with hspace | htab
  · rw [beq_iff_eq.mp hspace]
    rfl
  · rw [beq_iff_eq.mp htab]
    rfl

theorem quoteOf_flags (text : List Char) :
    let escaped := ['\\', '"'].isPrefixOf text
    let quoted := escaped || ['"'].isPrefixOf text
    Utf8.byteLen (quoteOf text) = quoted.toNat + escaped.toNat ∧
      (quoteOf text).isEmpty = !quoted ∧ ((quoteOf text).length == 2) = escaped := by
  rcases quoteOf_cases text with ⟨hquote, rest, rfl⟩ | ⟨hquote, rest, rfl⟩ | ⟨hquote, hnot, hnot'⟩
  · rw [hquote]
    exact ⟨rfl, rfl, rfl⟩
  · rw [hquote]
    exact ⟨rfl, rfl, rfl⟩
  · rw [hquote, Bool.eq_false_iff.mpr fun h => hnot (List.isPrefixOf_iff_prefix.mp h),
      Bool.eq_false_iff.mpr fun h => hnot' (List.isPrefixOf_iff_prefix.mp h)]
    exact ⟨rfl, rfl, rfl⟩

theorem secretAt_eq (isAlphanumeric : Char → Bool) (front rest : List Char) :
    secretAt isAlphanumeric (front ++ rest) (Utf8.byteLen front) =
      some ((secretIn isAlphanumeric front.getLast? rest).map fun found =>
        (Utf8.byteLen front + Utf8.byteLen found.front,
          Utf8.byteLen front + Utf8.byteLen found.front + Utf8.byteLen found.value)) := by
  have hstands : Stands (front ++ rest) (Utf8.byteLen front) rest := ⟨front, rfl, rfl⟩
  unfold secretAt secretIn
  rw [hstands.sliceFrom, Utf8.sliceTo_byteLen]
  simp only [Option.bind_eq_bind, Option.bind_some, find?_isName]
  have hnameIn : secretParams.find? (fun param => isName param (rest.take param.toList.length)) =
      nameIn rest := rfl
  rw [hnameIn]
  cases hname : nameIn rest with
  | none => rfl
  | some name =>
    dsimp only
    cases hbefore : front.getLast?.any (nameChar isAlphanumeric) with
    | true => simp
    | false =>
      have hmem := List.mem_of_find?_eq_some hname
      have hisName : isName name (rest.take name.toList.length) = true :=
        List.find?_some (p := fun param => isName param (rest.take param.toList.length)) hname
      have hbytes := isName_byteLen hmem hisName
      have hafter : Stands (front ++ rest)
          (Utf8.byteLen front + Utf8.byteLen (rest.take name.toList.length))
          (rest.drop name.toList.length) := by
        apply Stands.next
        rw [List.take_append_drop]
        exact hstands
      rw [← hbytes]
      generalize rest.take name.toList.length = written at hafter ⊢
      generalize rest.drop name.toList.length = afterName at hafter ⊢
      -- the name's own quote
      have hquote := quoteOf_append afterName
      obtain ⟨hlen, hempty, _⟩ := quoteOf_flags afterName
      rw [hafter.sliceFrom]
      simp only [Bool.false_eq_true, if_false, Option.bind_some]
      unfold openingOf
      dsimp only
      generalize (['\\', '"'].isPrefixOf afterName || ['"'].isPrefixOf afterName) = quotedName
        at hlen hempty ⊢
      generalize afterName.drop (quoteOf afterName).length = afterQuote at hquote ⊢
      generalize hstart : Utf8.byteLen front + Utf8.byteLen written = start at hafter ⊢
      rw [Nat.add_assoc start, ← hlen]
      rw [← hquote] at hafter
      have hafterQuote := hafter.next
      generalize hnameQuote : quoteOf afterName = nameQuote at *
      -- the filler up to the separator
      have hgap := List.takeWhile_append_dropWhile (p := isFiller) (l := afterQuote)
      rw [hafterQuote.inlineGap, Option.bind_some]
      rw [← hgap] at hafterQuote
      have hseparator := hafterQuote.next
      rw [hseparator.sliceFrom, Option.bind_some]
      cases hdrop : afterQuote.dropWhile isFiller with
      | nil => rfl
      | cons separator afterSeparator =>
        have hsame : (!quotedName && separator == '=' || quotedName && separator == ':') =
            decide (separator = separatorOf nameQuote) := by
          unfold separatorOf
          rw [hempty]
          cases quotedName <;> simp [beq_eq_decide]
        dsimp only [List.head?_cons]
        rw [hsame]
        by_cases hseparates : separator = separatorOf nameQuote
        · have hone : separator.utf8Size = 1 := by
            rw [hseparates]
            unfold separatorOf
            split <;> rfl
          rw [decide_eq_true hseparates, if_pos rfl, if_pos hseparates]
          -- the filler up to the value
          rw [hdrop] at hseparator
          have hafterSeparator : Stands (front ++ rest) (start + Utf8.byteLen nameQuote +
              Utf8.byteLen (afterQuote.takeWhile isFiller) + 1) afterSeparator := by
            have hread : Stands (front ++ rest) _ ([separator] ++ afterSeparator) := hseparator
            rw [← hone]
            exact hread.next
          have hgap' := List.takeWhile_append_dropWhile (p := isFiller) (l := afterSeparator)
          rw [hafterSeparator.inlineGap, Option.bind_some]
          rw [← hgap'] at hafterSeparator
          have hafterGap := hafterSeparator.next
          rw [hafterGap.sliceFrom, Option.bind_some]
          -- the value's quote
          generalize afterSeparator.dropWhile isFiller = afterGap at hafterGap ⊢
          have hquote' := quoteOf_append afterGap
          obtain ⟨hlen', hempty', hescaped'⟩ := quoteOf_flags afterGap
          generalize (['\\', '"'].isPrefixOf afterGap || ['"'].isPrefixOf afterGap) = quoted
            at hlen' hempty' ⊢
          generalize ['\\', '"'].isPrefixOf afterGap = escapedValue at hlen' hescaped' ⊢
          dsimp only
          generalize afterGap.drop (quoteOf afterGap).length = body at hquote' ⊢
          rw [← hquote'] at hafterGap
          have hbody := hafterGap.next
          rw [Nat.add_assoc _ quoted.toNat, ← hlen', hbody.sliceFrom, Option.bind_some]
          have hvalue : (if quoted then closingQuote body escapedValue
              else Utf8.byteLen (unquotedValue body)) =
                Utf8.byteLen (valueOf (quoteOf afterGap) body) := by
            unfold valueOf closingQuote
            rw [hempty', hescaped']
            cases quoted <;> rfl
          rw [hvalue]
          generalize valueOf (quoteOf afterGap) body = value
          cases value with
          | nil => rfl
          | cons c value =>
            have hpos := c.utf8Size_pos
            rw [Utf8.byteLen_cons, if_pos (by omega)]
            simp only [List.isEmpty_cons, Bool.false_eq_true, if_false, Option.map_some,
              Utf8.byteLen_append, Utf8.byteLen_cons, hone]
            apply congrArg some
            apply congrArg some
            rw [Prod.mk.injEq]
            constructor <;> omega
        · rw [decide_eq_false hseparates, if_neg Bool.false_ne_true, if_neg hseparates]
          rfl

/-- The loop computes the scan of what is left, in at most one turn a character. -/
theorem scanFrom_eq (isAlphanumeric : Char → Bool) (front rest out : List Char) (fuel : Nat)
    (hfuel : rest.length < fuel) :
    scanFrom isAlphanumeric (front ++ rest) fuel (Utf8.byteLen front) out =
      some (out ++ scan isAlphanumeric front.getLast? rest) := by
  induction fuel generalizing front rest out with
  | zero => exact absurd hfuel (Nat.not_lt_zero _)
  | succ fuel ih =>
    unfold scanFrom
    cases rest with
    | nil =>
      rw [List.append_nil, if_neg (Nat.lt_irrefl _), scan_nil, List.append_nil]
    | cons c tail =>
      have hpos := c.utf8Size_pos
      rw [if_pos (by rw [Utf8.byteLen_append, Utf8.byteLen_cons]; omega), secretAt_eq]
      simp only [Option.bind_eq_bind, Option.bind_some]
      cases hfound : secretIn isAlphanumeric front.getLast? (c :: tail) with
      | none =>
        have hslice := Utf8.slice_byteLen front [c] tail
        rw [List.singleton_append, Utf8.byteLen_cons, Utf8.byteLen_nil, Nat.add_zero] at hslice
        simp only [Option.map_none, Utf8.sliceFrom_byteLen, Option.bind_some, List.head?_cons,
          Option.elim_some, hslice]
        have hnext := ih (front ++ [c]) tail (out ++ [c]) (Nat.lt_of_succ_lt_succ hfuel)
        rw [List.append_assoc, List.singleton_append, Utf8.byteLen_append, Utf8.byteLen_cons,
          Utf8.byteLen_nil, Nat.add_zero, List.getLast?_concat, List.append_assoc,
          List.singleton_append] at hnext
        rw [hnext, scan_of_none hfound]
      | some found =>
        obtain ⟨hsplit, hvalue⟩ := secretIn_append hfound
        have hslice := Utf8.slice_byteLen front found.front (found.value ++ found.behind)
        rw [← hsplit] at hslice
        simp only [Option.map_some, hslice, Option.bind_some]
        have hpos := List.length_pos_iff.mpr hvalue
        have hlength := congrArg List.length hsplit
        rw [List.length_append, List.length_append] at hlength
        have hnext := ih (front ++ (found.front ++ found.value)) found.behind
          (out ++ found.front ++ mask.toList) (by omega)
        have hlast : (front ++ (found.front ++ found.value)).getLast? =
            found.value.getLast? := by
          rw [List.getLast?_append_of_ne_nil _ (by simp [hvalue]),
            List.getLast?_append_of_ne_nil _ hvalue]
        rw [hlast, List.append_assoc, List.append_assoc found.front, ← hsplit,
          Utf8.byteLen_append, Utf8.byteLen_append, ← Nat.add_assoc] at hnext
        rw [hnext, scan_of_found hfound]
        simp only [List.append_assoc]

/-- What `scrub` returns, over characters. -/
def scrubbedText (isAlphanumeric : Char → Bool) (known : List Secret) (text : String) : String :=
  String.ofList (scan isAlphanumeric none (maskKnownValues known text.toList))

theorem scrub_eq (isAlphanumeric : Char → Bool) (known : List Secret) (text : String) :
    scrub isAlphanumeric known text = some (scrubbedText isAlphanumeric known text) := by
  have hscan := scanFrom_eq isAlphanumeric [] (maskKnownValues known text.toList) []
    (Utf8.byteLen (maskKnownValues known text.toList) + 1)
    (Nat.lt_succ_of_le (Utf8.length_le_byteLen _))
  unfold scrub scrubbedText
  rw [List.nil_append, List.nil_append] at hscan
  dsimp only
  rw [← Utf8.byteLen_nil, hscan]
  rfl

end WindbgMcp.KdConn
