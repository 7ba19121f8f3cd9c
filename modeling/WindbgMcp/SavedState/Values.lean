import WindbgMcp.SavedState.LineWise

/-! Which headers are read exactly: the ids the parser counts, beside the values C counts. -/
namespace WindbgMcp.SavedState
open Library Library.Text

def ReadAsC (evaluate : List Char → Int) (entries : List Entry) : Prop :=
  ∀ entry ∈ entries, ∀ value, entry.2 = some value → ∀ id, readValue value = some id →
    evaluate value = id

section
variable {evaluate : List Char → Int} {entries : List Entry}

def countBehind (evaluate : List Char → Int) (next : Int) (entries : List Entry) : Int :=
  entries.foldl (fun next entry => entry.2.elim next evaluate + 1) next

theorem countOn_concat (next : Int) (entry : Entry) :
    countOn evaluate next (entries ++ [entry]) = countOn evaluate next entries ++
      [(entry.1, entry.2.elim (countBehind evaluate next entries) evaluate)] := by
  induction entries generalizing next with
  | nil => rfl
  | cons first entries ih =>
    rw [List.cons_append, countOn, ih]
    rfl

theorem map_countOn (next : Int) :
    (countOn evaluate next entries).map Prod.fst = entries.map Prod.fst := by
  induction entries generalizing next with
  | nil => rfl
  | cons entry entries ih => rw [countOn, List.map_cons, List.map_cons, ih]

/-- An enumerator behind others that are numbered as C numbers them is given C's value. -/
theorem given_of_value {next : Nat} (hnext : Next entries next)
    (hbehind : (next : Int) = countBehind evaluate 0 entries) {entry : Entry}
    (hread : ∀ value, entry.2 = some value → ∃ id, readValue value = some id ∧
      evaluate value = id) :
    ∃ id, Given entries entry id ∧
      (id : Int) = entry.2.elim (countBehind evaluate 0 entries) evaluate ∧
      Next (entries ++ [entry]) ((id + 1) % 2 ^ 32) := by
  cases hvalue : entry.2 with
  | none =>
    exact ⟨next, Or.inr ⟨hvalue, hnext⟩, hbehind,
      (next_concat_none hvalue).mpr ⟨next, hnext, rfl⟩⟩
  | some value =>
    obtain ⟨id, hid, hevaluate⟩ := hread value hvalue
    exact ⟨id, Or.inl ⟨value, hvalue, hid⟩, hevaluate.symm,
      (next_concat_some hvalue hid).mpr rfl⟩

theorem numbered_of_values (hnot : ¬ Refused entries) (hread : ReadAsC evaluate entries)
    (hdistinct : (entries.map Prod.fst).Nodup)
    (hvalues : ∀ named ∈ countOn evaluate 0 entries, -2 ^ 31 ≤ named.2 ∧ named.2 < 2 ^ 31) :
    (∃ next : Nat, Next entries next ∧ (next : Int) = countBehind evaluate 0 entries) ∧
      ∀ named ∈ countOn evaluate 0 entries, ∃ id : Nat,
        Numbered entries named.1 id ∧ (id : Int) = named.2 := by
  induction entries using List.reverseRecOn with
  | nil => exact ⟨⟨0, next_nil.mpr rfl, rfl⟩, List.forall_mem_nil _⟩
  | append_singleton entries entry ih =>
    rw [refused_concat, not_or] at hnot
    rw [List.map_append, List.nodup_append] at hdistinct
    rw [countOn_concat, List.forall_mem_append, List.forall_mem_singleton] at hvalues
    obtain ⟨⟨next, hnext, hbehind⟩, hnumbered⟩ := ih hnot.1
      (fun other hmem => hread other (List.mem_append_left _ hmem)) hdistinct.1 hvalues.1
    have hvalue : ∀ value, entry.2 = some value → ∃ id, readValue value = some id ∧
        evaluate value = id := by
      intro value hvalue
      cases hid : readValue value with
      | none => exact absurd ⟨value, hvalue, hid⟩ hnot.2
      | some id =>
        have hmem := List.mem_append_right entries (List.mem_singleton.mpr (Eq.refl entry))
        exact ⟨id, rfl, hread entry hmem value hvalue id hid⟩
    obtain ⟨id, hgiven, hid, hlater⟩ := given_of_value hnext hbehind hvalue
    have hsmall : id + 1 < 2 ^ 32 := by
      have hlt := hvalues.2.2
      dsimp only at hlt
      omega
    rw [Nat.mod_eq_of_lt hsmall] at hlater
    refine ⟨⟨id + 1, hlater, ?_⟩, ?_⟩
    · unfold countBehind at hid ⊢
      rw [List.foldl_concat, ← hid]
      rfl
    · rw [countOn_concat, List.forall_mem_append, List.forall_mem_singleton]
      constructor
      · intro named hnamed
        obtain ⟨other, hother, hsame⟩ := hnumbered named hnamed
        refine ⟨other, numbered_concat.mpr (Or.inr ⟨?_, hother⟩), hsame⟩
        have hname : named.1 ∈ entries.map Prod.fst := by
          rw [← @map_countOn evaluate entries 0]
          exact List.mem_map_of_mem hnamed
        exact (hdistinct.2.2 named.1 hname entry.1 (List.mem_singleton.mpr rfl)).symm
      · exact ⟨id, numbered_concat.mpr (Or.inl ⟨rfl, hgiven⟩), hid⟩

theorem parseHex_of_digits {bound : Nat} {c : Char} {rest : List Char} {digits : List Nat}
    (h : (c :: rest).mapM hexValue = some digits) :
    parseHex bound (String.ofList (c :: rest)) =
      if digitsValue 16 digits ≤ bound then some (digitsValue 16 digits) else none := by
  have hplus : c ≠ '+' := by
    rintro rfl
    rw [List.mapM_cons] at h
    cases h
  unfold parseHex
  rw [String.toList_ofList]
  split
  · rename_i heq
    exact absurd (List.cons.inj heq).1 hplus
  · dsimp only
    rw [h]
    rfl

theorem parseUnsigned_of_digits {bound : Nat} {c : Char} {rest : List Char}
    (h : (c :: rest).all Char.isDigit = true) :
    parseUnsigned bound (String.ofList (c :: rest)) =
      if digitsValue 10 ((c :: rest).map fun c => c.toNat - '0'.toNat) ≤ bound then
        some (digitsValue 10 ((c :: rest).map fun c => c.toNat - '0'.toNat))
      else none := by
  have hplus : c ≠ '+' := by
    rintro rfl
    cases h
  unfold parseUnsigned digitsValue
  rw [String.toList_ofList, List.foldl_map]
  split
  · rename_i heq
    exact absurd (List.cons.inj heq).1 hplus
  · simp [h]

theorem afterFront_none {second : Char} {text : List Char}
    (h : ∀ rest, text ≠ '0' :: second :: rest) :
    afterFront (String.ofList ['0', second]) (String.ofList text) = none := by
  unfold afterFront
  rw [String.toList_ofList, String.toList_ofList, if_neg]
  rw [List.isPrefixOf_iff_prefix]
  rintro ⟨rest, rfl⟩
  exact h rest rfl

theorem readValue_hex {second c : Char} {rest : List Char} (h : second = 'x' ∨ second = 'X') :
    readValue ('0' :: second :: c :: rest) = parseHex maxId (String.ofList (c :: rest)) := by
  unfold readValue afterFront
  rcases h with rfl | rfl <;> simp

theorem readValue_decimal {text : List Char}
    (h : ∀ second rest, text = '0' :: second :: rest → second ≠ 'x' ∧ second ≠ 'X') :
    readValue text = parseUnsigned maxId (String.ofList text) := by
  unfold readValue
  dsimp only
  rw [show "0x" = String.ofList ['0', 'x'] from rfl, show "0X" = String.ofList ['0', 'X'] from rfl,
    afterFront_none fun rest htext => (h 'x' rest htext).1 rfl,
    afterFront_none fun rest htext => (h 'X' rest htext).2 rfl]
  rfl

def IsOctal (text : List Char) : Prop :=
  text.head? = some '0' ∧ 2 ≤ text.length ∧ text[1]? ≠ some 'x' ∧ text[1]? ≠ some 'X'

instance : DecidablePred IsOctal := fun _ => inferInstanceAs (Decidable (_ ∧ _))

/-- A decimal or a hexadecimal literal is read as C reads it, where its value fits. -/
theorem readValue_of_literal {text : List Char} {value : Nat}
    (h : literalValue text = some value) (hoctal : ¬ IsOctal text) :
    readValue text = if value ≤ maxId then some value else none := by
  unfold literalValue at h
  split at h
  · obtain ⟨digits, hdigits, rfl⟩ := Option.map_eq_some_iff.mp h
    rw [readValue_hex (Or.inl rfl), parseHex_of_digits hdigits]
  · obtain ⟨digits, hdigits, rfl⟩ := Option.map_eq_some_iff.mp h
    rw [readValue_hex (Or.inr rfl), parseHex_of_digits hdigits]
  · rename_i rest _ _
    rw [Option.ite_none_right_eq_some] at h
    obtain ⟨hdigits, hvalue⟩ := h
    cases rest with
    | nil =>
      cases hvalue
      have hshort : ∀ second rest, ['0'] ≠ '0' :: second :: rest := by simp
      rw [readValue_decimal fun second rest htext => absurd htext (hshort second rest),
        parseUnsigned_of_digits rfl]
      rfl
    | cons second rest =>
      have hletter : second ≠ 'x' ∧ second ≠ 'X' := by
        constructor <;>
          · rintro rfl
            cases hdigits
      refine absurd ⟨rfl, by simp, ?_, ?_⟩ hoctal
      · exact fun hx => hletter.1 (Option.some.inj hx)
      · exact fun hX => hletter.2 (Option.some.inj hX)
  · rename_i c rest hzero
    rw [Option.ite_none_right_eq_some] at h
    obtain ⟨hdigits, hvalue⟩ := h
    cases hvalue
    rw [readValue_decimal, parseUnsigned_of_digits hdigits]
    intro second later htext
    exact absurd (List.cons.inj htext).1 hzero
  · cases h

theorem readAsC_of_literals
    (hliteral : ∀ (text : List Char) (value : Nat),
      literalValue text = some value → evaluate text = value)
    (h : ∀ entry ∈ entries, ∀ text ∈ entry.2,
      readValue text = none ∨ (literalValue text ≠ none ∧ ¬ IsOctal text)) :
    ReadAsC evaluate entries := by
  intro entry hentry text htext id hid
  rcases h entry hentry text htext with hnone | ⟨hsome, hoctal⟩
  · rw [hnone] at hid
    cases hid
  · obtain ⟨value, hvalue⟩ := Option.ne_none_iff_exists'.mp hsome
    rw [readValue_of_literal hvalue hoctal, Option.ite_none_right_eq_some] at hid
    cases hid.2
    exact hliteral text id hvalue

end

/-! ### Headers -/

def literalOr (text : List Char) : Int := ((literalValue text).getD 0 : Nat)

theorem literalOr_eq (text : List Char) (value : Nat) (h : literalValue text = some value) :
    literalOr text = value := by
  unfold literalOr
  rw [h]
  rfl

def typicalEntries : List Entry :=
  [("X64_RegisterRax".toList, some ['0']), ("X64_RegisterRcx".toList, none),
    ("Arm64_RegisterX0".toList, some "0x100".toList), ("Arm64_RegisterX1".toList, none)]

/-- An enum as the SDK spells it. -/
def typical : Declaration where
  front := []
  gap := ['\n']
  body := [] ++ '\n' :: ("    X64_RegisterRax = 0".toList ++ ',' :: [] ++ '\n' ::
    ("    ".toList ++ '/' :: '/' :: " a comment".toList ++ '\n' ::
      ("    X64_RegisterRcx".toList ++ ',' :: [] ++ '\n' ::
        ("    Arm64_RegisterX0 = 0x100".toList ++ ',' :: [] ++ '\n' ::
          ("    Arm64_RegisterX1".toList ++ [] ++ '\n' :: [])))))
  back := ['\n']
  enumerators := typicalEntries
  evaluate := literalOr
  apart := by decide +kernel
  reads := by decide +kernel
  distinct := by decide +kernel
  literal := literalOr_eq
  representable := by decide +kernel

theorem typical_lineWise : LineWise true typical.body typical.enumerators := by
  have hend : LineEnd [] := .blank (by decide) (by decide)
  apply LineWise.blank hend
  apply LineWise.entry (forall_mem_of_all (by decide +kernel)) (by decide +kernel)
    (by decide +kernel) hend
  apply LineWise.blank (.remark (by decide +kernel) (by decide +kernel) (by decide +kernel))
  apply LineWise.entry (forall_mem_of_all (by decide +kernel)) (by decide +kernel)
    (by decide +kernel) hend
  apply LineWise.entry (forall_mem_of_all (by decide +kernel)) (by decide +kernel)
    (by decide +kernel) hend
  apply LineWise.last (forall_mem_of_all (by decide +kernel)) (by decide +kernel)
    (by decide +kernel) hend
  exact .close (by decide) (by decide)

def sharedLine : Declaration where
  front := []
  gap := ['\n']
  body := "\n    A, B,\n    C,\n".toList
  back := ['\n']
  enumerators := [(['A'], none), (['B'], none), (['C'], none)]
  evaluate := literalOr
  apart := by decide +kernel
  reads := by decide +kernel
  distinct := by decide +kernel
  literal := literalOr_eq
  representable := by decide +kernel

end WindbgMcp.SavedState
