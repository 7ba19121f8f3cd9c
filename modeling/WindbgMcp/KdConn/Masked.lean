import WindbgMcp.KdConn.Scan

/-! What a scrubbed text holds: no remembered secret, and nothing that scrubbing it
again would change.  A second scan reads the same names at the same places, because
no name starts inside what the first one cut, nor right behind it. -/
namespace WindbgMcp.KdConn
open WindbgMcp.Library

def maskParts : Mask Char := ⟨'<', "redacted".toList, '>'⟩

theorem mask_toList : mask.toList = maskParts.text := by
  decide

section Leaks
variable {isAlphanumeric : Char → Bool} {known : List Secret}

theorem scan_masked (isAlphanumeric : Char → Bool) (before : Option Char) (rest : List Char) :
    Masked maskParts rest (scan isAlphanumeric before rest) := by
  fun_induction scan isAlphanumeric before rest with
  | case1 => exact .plain []
  | case2 before c tail found hfound ih =>
    rw [(secretIn_append hfound).1, mask_toList]
    exact .hide found.front found.value ih
  | case3 before c tail _ ih => exact ih.append [c]

theorem foldl_replaceAll (hspared : ∀ secret ∈ known, maskParts.Spares secret.value.toList) :
    ∀ text : List Char,
      (∀ secret ∈ known, ¬secret.value.toList <:+: known.foldl
        (fun out secret => Text.replaceAll secret.pattern mask.toList out) text) ∧
      ∀ word, maskParts.Spares word → word <:+: known.foldl
        (fun out secret => Text.replaceAll secret.pattern mask.toList out) text →
          word <:+: text := by
  induction known with
  | nil =>
    intro text
    exact ⟨by simp, fun word _ h => h⟩
  | cons secret known ih =>
    intro text
    have hfirst := hspared secret List.mem_cons_self
    obtain ⟨hnone, hold⟩ := ih (fun other hother => hspared other (List.mem_cons_of_mem _ hother))
      (Text.replaceAll secret.pattern mask.toList text)
    rw [List.foldl_cons]
    constructor
    · intro other hother
      rcases List.mem_cons.mp hother with rfl | hlater
      · intro hoccurs
        have hreplaced := hold _ hfirst hoccurs
        rw [mask_toList] at hreplaced
        exact Text.not_infix_replaceAll other.pattern hfirst text hreplaced
      · exact hnone other hlater
    · intro word hword hoccurs
      have hreplaced := hold word hword hoccurs
      rw [mask_toList] at hreplaced
      exact (Text.replaceAll_masked secret.pattern maskParts text).isInfix hword hreplaced

theorem maskKnownValues_spec
    (hspared : ∀ secret ∈ known, maskParts.Spares secret.value.toList) (text : List Char) :
    ∀ secret ∈ known, ¬secret.value.toList <:+: maskKnownValues known text := by
  intro secret hsecret hoccurs
  unfold maskKnownValues at hoccurs
  dsimp only at hoccurs
  generalize hordered : (known.filter fun secret =>
    (Text.splitAtFirst secret.value.toList text).isSome).mergeSort (fun secret other =>
      decide (Utf8.byteLen other.value.toList ≤ Utf8.byteLen secret.value.toList)) = ordered
    at hoccurs
  have hmem : ∀ other, other ∈ ordered ↔ other ∈ known ∧
      (Text.splitAtFirst other.value.toList text).isSome := by
    intro other
    rw [← hordered, List.mem_mergeSort, List.mem_filter]
  obtain ⟨hnone, hold⟩ := foldl_replaceAll
    (fun other hother => hspared other ((hmem other).mp hother).1) text
  have hpresent := hold _ (hspared secret hsecret) hoccurs
  apply hnone secret _ hoccurs
  rw [hmem]
  refine ⟨hsecret, ?_⟩
  rw [Option.isSome_iff_ne_none]
  intro habsent
  exact Text.splitAtFirst_isNone_iff.mp habsent hpresent

theorem maskKnownValues_of_absent {text : List Char}
    (habsent : ∀ secret ∈ known, ¬secret.value.toList <:+: text) :
    maskKnownValues known text = text := by
  have hnone : (known.filter fun secret =>
      (Text.splitAtFirst secret.value.toList text).isSome) = [] := by
    rw [List.filter_eq_nil_iff]
    intro secret hsecret
    rw [Text.splitAtFirst_isNone_iff.mpr (habsent secret hsecret)]
    exact Bool.false_ne_true
  unfold maskKnownValues
  dsimp only
  rw [hnone, List.mergeSort_nil]
  rfl

end Leaks

/-! The second scan -/

def startsName (c : Char) : Bool := c.toLower == 'k' || c.toLower == 'p'

theorem nameIn_eq (rest : List Char) :
    nameIn rest = if isName "key" (rest.take 3) then some "key"
      else if isName "password" (rest.take 8) then some "password" else none := by
  have hkey : "key".toList.length = 3 := by decide
  have hpassword : "password".toList.length = 8 := by decide
  simp only [nameIn, secretParams, List.find?_cons, List.find?_nil, hkey, hpassword]
  cases isName "key" (rest.take 3) <;> cases isName "password" (rest.take 8) <;> rfl

theorem isName_cons {name : String} {first c : Char} {letters rest : List Char}
    (hname : name.toList = first :: letters) :
    isName name (c :: rest) = true ↔
      c.toLower = first.toLower ∧ rest.map Char.toLower = letters.map Char.toLower := by
  rw [isName_iff, hname, List.map_cons, List.map_cons, List.cons.injEq]

theorem key_toList : "key".toList = 'k' :: ['e', 'y'] := by
  decide

theorem password_toList : "password".toList = 'p' :: ['a', 's', 's', 'w', 'o', 'r', 'd'] := by
  decide

theorem nameIn_of_not_startsName {c : Char} (h : startsName c = false) (tail : List Char) :
    nameIn (c :: tail) = none := by
  unfold startsName at h
  rw [Bool.or_eq_false_iff, beq_eq_false_iff_ne, beq_eq_false_iff_ne] at h
  rw [nameIn_eq, List.take_succ_cons, List.take_succ_cons, if_neg, if_neg]
  · rw [isName_cons password_toList]
    exact fun hboth => h.2 hboth.1
  · rw [isName_cons key_toList]
    exact fun hboth => h.1 hboth.1

section Second
variable (isAlphanumeric : Char → Bool) (before : Option Char) (rest : List Char) {c : Char}
  {tail : List Char}

theorem secretIn_of_not_startsName (h : startsName c = false) :
    secretIn isAlphanumeric before (c :: tail) = none := by
  apply Option.eq_none_iff_forall_ne_some.mpr
  intro found hfound
  obtain ⟨name, _, hname, -⟩ := secretIn_eq_some.mp hfound
  rw [nameIn_of_not_startsName h tail] at hname
  cases hname

theorem scan_cons (h : startsName c = false) :
    scan isAlphanumeric before (c :: tail) = c :: scan isAlphanumeric (some c) tail :=
  scan_of_none (secretIn_of_not_startsName isAlphanumeric before h)

theorem nameIn_length {rest : List Char} {name : String} (h : nameIn rest = some name) :
    (rest.take name.toList.length).length = name.toList.length ∧
      0 < (rest.take name.toList.length).length := by
  have hisName : isName name (rest.take name.toList.length) = true :=
    List.find?_some (p := fun param => isName param (rest.take param.toList.length)) h
  have hlength := isName_length hisName
  have hpos : ∀ name ∈ secretParams, 0 < name.toList.length := by
    decide
  refine ⟨hlength, ?_⟩
  rw [hlength]
  exact hpos name (List.mem_of_find?_eq_some h)

theorem scan_head? : (scan isAlphanumeric before rest).head? = rest.head? := by
  cases rest with
  | nil => rw [scan_nil]
  | cons c tail =>
    cases hfound : secretIn isAlphanumeric before (c :: tail) with
    | none => rw [scan_of_none hfound, List.head?_cons, List.head?_cons]
    | some found =>
      obtain ⟨name, opening, hname, _, _, _, rfl⟩ := secretIn_eq_some.mp hfound
      rw [scan_of_found hfound, List.append_assoc]
      have hpos := (nameIn_length hname).2
      cases hcount : name.toList.length with
      | zero =>
        rw [hcount] at hpos
        exact absurd hpos (Nat.lt_irrefl 0)
      | succ count => rfl

theorem scan_eq_nil : scan isAlphanumeric before rest = [] ↔ rest = [] := by
  rw [← List.head?_eq_none_iff, scan_head?, List.head?_eq_none_iff]

theorem scan_append {read : List Char} (hread : ∀ c ∈ read, startsName c = false) :
    ∃ before', scan isAlphanumeric before (read ++ rest) =
      read ++ scan isAlphanumeric before' rest := by
  induction read generalizing before with
  | nil => exact ⟨before, rfl⟩
  | cons c read ih =>
    obtain ⟨before', hrest⟩ := ih (some c)
      fun later hlater => hread later (List.mem_cons_of_mem _ hlater)
    refine ⟨before', ?_⟩
    rw [List.cons_append, scan_cons _ _ (hread c List.mem_cons_self), hrest]
    rfl

theorem scan_uncons {isAlphanumeric : Char → Bool} {before : Option Char}
    {rest out : List Char} (hc : startsName c = false)
    (h : scan isAlphanumeric before rest = c :: out) :
    ∃ tail, rest = c :: tail ∧ out = scan isAlphanumeric (some c) tail := by
  have hhead := scan_head? isAlphanumeric before rest
  rw [h] at hhead
  cases rest with
  | nil => cases hhead
  | cons first tail =>
    obtain rfl := Option.some.inj hhead
    rw [scan_cons _ _ hc] at h
    exact ⟨tail, rfl, (List.cons.inj h).2.symm⟩

theorem prefix_scan_iff {read : List Char} (hread : ∀ c ∈ read, startsName c = false) :
    read <+: scan isAlphanumeric before rest ↔ read <+: rest := by
  constructor
  · intro h
    induction read generalizing before rest with
    | nil => exact List.nil_prefix
    | cons c read ih =>
      obtain ⟨behind, hout⟩ := h
      obtain ⟨tail, rfl, htail⟩ := scan_uncons (hread c List.mem_cons_self) hout.symm
      apply List.cons_prefix_cons.mpr
      refine ⟨rfl, ih (some c) tail (fun later hlater =>
        hread later (List.mem_cons_of_mem _ hlater)) ?_⟩
      exact ⟨behind, htail⟩
  · rintro ⟨behind, rfl⟩
    obtain ⟨before', hscan⟩ := scan_append isAlphanumeric before behind hread
    exact ⟨_, hscan.symm⟩

theorem isQuote_quoteOf (text : List Char) :
    quoteOf text = [] ∨ quoteOf text = ['"'] ∨ quoteOf text = ['\\', '"'] := by
  rcases quoteOf_cases text with ⟨h, _⟩ | ⟨h, _⟩ | ⟨h, _⟩ <;> simp [h]

theorem quoteOf_startsName (text : List Char) : ∀ c ∈ quoteOf text, startsName c = false := by
  rcases isQuote_quoteOf text with h | h | h <;> rw [h] <;>
    exact Text.forall_mem_of_all (by decide)

theorem quoteOf_eq_iff {text quote : List Char} (h : quote ≠ []) :
    quoteOf text = quote ↔ (quote = ['"'] ∨ quote = ['\\', '"']) ∧ quote <+: text := by
  rcases quoteOf_cases text with ⟨hquote, tail, rfl⟩ | ⟨hquote, tail, rfl⟩ | ⟨hquote, hnot, hnot'⟩
  · rw [hquote]
    constructor
    · rintro rfl
      exact ⟨Or.inr rfl, List.prefix_append ['\\', '"'] tail⟩
    · rintro ⟨rfl | rfl, hfront⟩
      · simp at hfront
      · rfl
  · rw [hquote]
    constructor
    · rintro rfl
      exact ⟨Or.inl rfl, List.prefix_append ['"'] tail⟩
    · rintro ⟨rfl | rfl, hfront⟩
      · rfl
      · simp at hfront
  · rw [hquote]
    constructor
    · intro hnil
      exact absurd hnil.symm h
    · rintro ⟨rfl | rfl, hfront⟩
      · exact absurd hfront hnot'
      · exact absurd hfront hnot

theorem quoteOf_scan :
    quoteOf (scan isAlphanumeric before rest) = quoteOf rest ∧
      ∃ before', (scan isAlphanumeric before rest).drop (quoteOf rest).length =
        scan isAlphanumeric before' (rest.drop (quoteOf rest).length) := by
  constructor
  · have hfront : ∀ quote, (quote = ['"'] ∨ quote = ['\\', '"']) →
        (quote <+: scan isAlphanumeric before rest ↔ quote <+: rest) := by
      rintro quote (rfl | rfl) <;>
        exact prefix_scan_iff _ _ _ (Text.forall_mem_of_all (by decide))
    by_cases hnil : quoteOf rest = []
    · by_contra hne
      rw [hnil] at hne
      have hscan := (quoteOf_eq_iff hne).mp rfl
      have hrest := (quoteOf_eq_iff hne).mpr ⟨hscan.1, (hfront _ hscan.1).mp hscan.2⟩
      exact hne (hrest.symm.trans hnil)
    · have hrest := (quoteOf_eq_iff hnil).mp rfl
      exact (quoteOf_eq_iff hnil).mpr ⟨hrest.1, (hfront _ hrest.1).mpr hrest.2⟩
  · obtain ⟨before', hscan⟩ := scan_append isAlphanumeric before
      (rest.drop (quoteOf rest).length) (quoteOf_startsName rest)
    refine ⟨before', ?_⟩
    rw [quoteOf_append] at hscan
    rw [hscan, List.drop_left' rfl]

theorem takeWhile_stop {p : Char → Bool} {read stop : List Char} (hread : ∀ c ∈ read, p c = true)
    (hstop : ∀ c, stop.head? = some c → p c = false) :
    (read ++ stop).takeWhile p = read ∧ (read ++ stop).dropWhile p = stop := by
  have hnone : stop.takeWhile p = [] ∧ stop.dropWhile p = stop := by
    cases stop with
    | nil => exact ⟨rfl, rfl⟩
    | cons c stop =>
      have hc := Bool.eq_false_iff.mp (hstop c rfl)
      exact ⟨List.takeWhile_cons_of_neg hc, List.dropWhile_cons_of_neg hc⟩
  rw [List.takeWhile_append_of_pos hread, List.dropWhile_append_of_pos hread, hnone.1, hnone.2,
    List.append_nil]
  exact ⟨rfl, rfl⟩

theorem dropWhile_head {p : Char → Bool} (text : List Char) :
    ∀ c, (text.dropWhile p).head? = some c → p c = false := by
  intro c hc
  have hhead := List.head?_dropWhile_not p text
  rw [hc] at hhead
  simpa using hhead

theorem stop_of_head? {p : Char → Bool} {text other : List Char} (hhead : text.head? = other.head?)
    (hstop : ∀ c, other.head? = some c → p c = false) :
    ∀ c, text.head? = some c → p c = false := by
  rw [hhead]
  exact hstop

theorem filler_scan :
    (scan isAlphanumeric before rest).takeWhile isFiller = rest.takeWhile isFiller ∧
      ∃ before', (scan isAlphanumeric before rest).dropWhile isFiller =
        scan isAlphanumeric before' (rest.dropWhile isFiller) := by
  have hfiller : ∀ c ∈ rest.takeWhile isFiller, isFiller c = true :=
    fun c hc => List.mem_takeWhile_imp hc
  have hpass : ∀ c ∈ rest.takeWhile isFiller, startsName c = false := by
    intro c hc
    rcases Bool.or_eq_true_iff.mp (hfiller c hc) with hspace | htab
    · rw [beq_iff_eq.mp hspace]
      decide
    · rw [beq_iff_eq.mp htab]
      decide
  obtain ⟨before', hscan⟩ := scan_append isAlphanumeric before (rest.dropWhile isFiller) hpass
  rw [List.takeWhile_append_dropWhile] at hscan
  have hstop := takeWhile_stop hfiller (stop_of_head? (scan_head? isAlphanumeric before'
    (rest.dropWhile isFiller)) (dropWhile_head rest))
  rw [hscan]
  exact ⟨hstop.1, before', hstop.2⟩

theorem separatorOf_startsName (quote : List Char) : startsName (separatorOf quote) = false := by
  unfold separatorOf
  split <;> decide

/-- An opening is read the same behind the first scan, which goes on in the body. -/
theorem openingOf_scan :
    (openingOf rest = none ∧ openingOf (scan isAlphanumeric before rest) = none) ∨
    ∃ opening before', openingOf rest = some opening ∧
      openingOf (scan isAlphanumeric before rest) =
        some { opening with body := scan isAlphanumeric before' opening.body } := by
  obtain ⟨hquote, before₁, hafterQuote⟩ := quoteOf_scan isAlphanumeric before rest
  unfold openingOf
  dsimp only
  rw [hquote, hafterQuote]
  generalize rest.drop (quoteOf rest).length = afterQuote
  obtain ⟨hgap, before₂, hdrop⟩ := filler_scan isAlphanumeric before₁ afterQuote
  rw [hgap, hdrop]
  cases afterQuote.dropWhile isFiller with
  | nil => rw [scan_nil]; exact Or.inl ⟨rfl, rfl⟩
  | cons separator afterSeparator =>
    by_cases hseparator : separator = separatorOf (quoteOf rest)
    · have hpass : startsName separator = false := by
        rw [hseparator]
        exact separatorOf_startsName _
      rw [scan_cons _ _ hpass]
      dsimp only
      rw [if_pos hseparator, if_pos hseparator]
      obtain ⟨hgap', before₃, hdrop'⟩ := filler_scan isAlphanumeric (some separator) afterSeparator
      rw [hgap', hdrop']
      obtain ⟨hquote', before₄, hbody⟩ := quoteOf_scan isAlphanumeric before₃
        (afterSeparator.dropWhile isFiller)
      rw [hquote', hbody]
      exact Or.inr ⟨_, before₄, rfl, rfl⟩
    · have hhead := scan_head? isAlphanumeric before₂ (separator :: afterSeparator)
      cases hscan : scan isAlphanumeric before₂ (separator :: afterSeparator) with
      | nil => exact absurd ((scan_eq_nil _ _ _).mp hscan) (by simp)
      | cons first tail =>
        rw [hscan] at hhead
        obtain rfl := Option.some.inj hhead
        dsimp only
        rw [if_neg hseparator, if_neg hseparator]
        exact Or.inl ⟨rfl, rfl⟩

end Second

/-! Where a value ends -/

def Closes (quote behind : List Char) : Prop :=
  behind = [] ∨
    if quote = [] then ∃ c, behind.head? = some c ∧ endsValue c = true
    else quote <+: behind

def Plain (c : Char) : Prop := endsValue c = false ∧ c ≠ '"' ∧ c ≠ '\\'

theorem untilQuote_closes (body : List Char) : ∀ afterBackslash : Bool,
    body.drop (untilQuote afterBackslash body).length = [] ∨
      ['"'] <+: body.drop (untilQuote afterBackslash body).length := by
  induction body with
  | nil =>
    intro afterBackslash
    exact Or.inl (by simp)
  | cons c rest ih =>
    intro afterBackslash
    cases afterBackslash with
    | true => exact ih false
    | false =>
      unfold untilQuote
      split
      case isTrue => exact ih true
      case isFalse =>
        split
        case isTrue hquote =>
          rw [hquote]
          exact Or.inr (List.prefix_append ['"'] rest)
        case isFalse => exact ih false

theorem untilQuote_plain {word behind : List Char} (hword : ∀ c ∈ word, Plain c)
    (hbehind : behind = [] ∨ ['"'] <+: behind) : untilQuote false (word ++ behind) = word := by
  induction word with
  | nil =>
    rcases hbehind with rfl | ⟨tail, rfl⟩
    · rfl
    · rfl
  | cons c word ih =>
    have hplain := hword c List.mem_cons_self
    rw [List.cons_append, untilQuote, if_neg hplain.2.2, if_neg hplain.2.1,
      ih fun later hlater => hword later (List.mem_cons_of_mem _ hlater)]

theorem splitAtFirst_plain {word behind : List Char} (hword : ∀ c ∈ word, Plain c) :
    Text.splitAtFirst ['\\', '"'] (word ++ '\\' :: '"' :: behind) = some (word, behind) := by
  induction word with
  | nil => rfl
  | cons c word ih =>
    have hplain := hword c List.mem_cons_self
    have hnot : ['\\', '"'].isPrefixOf (c :: (word ++ '\\' :: '"' :: behind)) = false := by
      rw [List.isPrefixOf_cons_cons, beq_false_of_ne hplain.2.2.symm, Bool.false_and]
    rw [List.cons_append, Text.splitAtFirst, if_neg (by rw [hnot]; exact Bool.false_ne_true),
      ih fun later hlater => hword later (List.mem_cons_of_mem _ hlater)]
    rfl

theorem splitAtFirst_plain_end {word : List Char} (hword : ∀ c ∈ word, Plain c) :
    Text.splitAtFirst ['\\', '"'] word = none := by
  rw [Text.splitAtFirst_isNone_iff]
  intro hoccurs
  exact (hword '\\' (hoccurs.subset List.mem_cons_self)).2.2 rfl

theorem valueOf_escaped (body : List Char) :
    valueOf ['\\', '"'] body =
      ((Text.splitAtFirst ['\\', '"'] body).map (·.1)).getD body := by
  change quotedValue body true = _
  unfold quotedValue
  rw [if_pos rfl]
  cases Text.splitAtFirst ['\\', '"'] body <;> rfl

theorem valueOf_plain {quote word behind : List Char}
    (hquote : quote = [] ∨ quote = ['"'] ∨ quote = ['\\', '"'])
    (hword : ∀ c ∈ word, Plain c) (hcloses : Closes quote behind) :
    valueOf quote (word ++ behind) = word := by
  rcases hquote with rfl | rfl | rfl
  · apply (takeWhile_stop _ _).1
    · intro c hc
      rw [(hword c hc).1]
      rfl
    · intro c hc
      rcases hcloses with rfl | hends
      · cases hc
      · rw [if_pos rfl] at hends
        obtain ⟨first, hfirst, hends⟩ := hends
        rw [hc] at hfirst
        rw [Option.some.inj hfirst, hends]
        rfl
  · exact untilQuote_plain hword hcloses
  · rw [valueOf_escaped]
    rcases hcloses with rfl | hfront
    · rw [List.append_nil, splitAtFirst_plain_end hword]
      rfl
    · obtain ⟨tail, rfl⟩ := hfront
      rw [List.cons_append, List.cons_append, List.nil_append, splitAtFirst_plain hword]
      rfl

theorem closes_behind {quote : List Char}
    (hquote : quote = [] ∨ quote = ['"'] ∨ quote = ['\\', '"']) (body : List Char) :
    Closes quote (body.drop (valueOf quote body).length) := by
  rcases hquote with rfl | rfl | rfl
  · have hvalue : valueOf [] body = body.takeWhile fun c => !endsValue c := rfl
    have hsplit := List.takeWhile_append_dropWhile (p := fun c => !endsValue c) (l := body)
    have hrest : body.drop (valueOf [] body).length = body.dropWhile fun c => !endsValue c := by
      rw [hvalue]
      conv => lhs; arg 2; rw [← hsplit]
      rw [List.drop_left' rfl]
    rw [hrest]
    cases hdrop : body.dropWhile fun c => !endsValue c with
    | nil => exact Or.inl rfl
    | cons c rest =>
      have hends := dropWhile_head (p := fun c => !endsValue c) body c (by rw [hdrop]; rfl)
      apply Or.inr
      rw [if_pos rfl]
      exact ⟨c, rfl, by simpa using hends⟩
  · exact untilQuote_closes body false
  · rw [valueOf_escaped]
    cases hsplit : Text.splitAtFirst ['\\', '"'] body with
    | none => exact Or.inl (List.drop_length)
    | some parts =>
      have happend : parts.1 ++ ['\\', '"'] ++ parts.2 = body := Text.splitAtFirst_append hsplit
      apply Or.inr
      rw [← happend, List.append_assoc, Option.map_some, Option.getD_some, List.drop_left' rfl]
      exact List.prefix_append _ _

theorem valueOf_eq_nil_iff {quote : List Char}
    (hquote : quote = [] ∨ quote = ['"'] ∨ quote = ['\\', '"']) (body : List Char) :
    valueOf quote body = [] ↔ Closes quote body := by
  constructor
  · intro hnil
    have hcloses := closes_behind hquote body
    rw [hnil] at hcloses
    exact hcloses
  · intro hcloses
    have hvalue : valueOf quote ([] ++ body) = [] := valueOf_plain hquote (by simp) hcloses
    exact hvalue

section Rescan
variable (isAlphanumeric : Char → Bool) (before : Option Char) (rest : List Char)

theorem closes_scan_iff {quote : List Char}
    (hquote : quote = [] ∨ quote = ['"'] ∨ quote = ['\\', '"']) :
    Closes quote (scan isAlphanumeric before rest) ↔ Closes quote rest := by
  unfold Closes
  rw [scan_eq_nil, scan_head?]
  rcases hquote with rfl | rfl | rfl
  · rfl
  · rw [if_neg (by simp), if_neg (by simp),
      prefix_scan_iff _ _ _ (Text.forall_mem_of_all (by decide))]
  · rw [if_neg (by simp), if_neg (by simp),
      prefix_scan_iff _ _ _ (Text.forall_mem_of_all (by decide))]

theorem isName_scan {name : String} {first : Char} {letters : List Char} (c : Char)
    (hname : name.toList = first :: letters)
    (hletters : ∀ letter ∈ letters, letter.toLower = letter ∧ startsName letter = false) :
    (isName name ((c :: scan isAlphanumeric before rest).take name.toList.length) =
        isName name ((c :: rest).take name.toList.length)) ∧
      (isName name ((c :: rest).take name.toList.length) = true → ∃ before',
        (c :: scan isAlphanumeric before rest) =
          (c :: rest).take name.toList.length ++
            scan isAlphanumeric before' ((c :: rest).drop name.toList.length)) := by
  -- a text whose first characters are the letters, in either case
  have hpass : ∀ text : List Char,
      (text.take letters.length).map Char.toLower = letters.map Char.toLower →
        ∀ letter ∈ text.take letters.length, startsName letter = false := by
    intro text htext letter hletter
    have hlower : letter.toLower ∈ letters.map Char.toLower := by
      rw [← htext]
      exact List.mem_map_of_mem hletter
    obtain ⟨other, hother, heq⟩ := List.mem_map.mp hlower
    have hplain := (hletters other hother).2
    unfold startsName at hplain ⊢
    rw [← heq]
    exact hplain
  have hscan : (rest.take letters.length).map Char.toLower = letters.map Char.toLower →
      ∃ before', scan isAlphanumeric before rest =
        rest.take letters.length ++ scan isAlphanumeric before' (rest.drop letters.length) := by
    intro htext
    have hsplit := scan_append isAlphanumeric before (rest.drop letters.length)
      (hpass rest htext)
    rw [List.take_append_drop] at hsplit
    exact hsplit
  rw [hname, List.length_cons, List.take_succ_cons, List.take_succ_cons, List.drop_succ_cons]
  constructor
  · rw [Bool.eq_iff_iff, isName_cons hname, isName_cons hname]
    apply and_congr_right
    intro _
    constructor
    · intro htext
      have hread := hpass _ htext
      have hfront := (prefix_scan_iff isAlphanumeric before rest hread).mp
        (List.take_prefix _ _)
      have hlength := congrArg List.length htext
      rw [List.length_map, List.length_map] at hlength
      have htake := List.prefix_iff_eq_take.mp hfront
      rw [hlength] at htake
      rw [← htake]
      exact htext
    · intro htext
      obtain ⟨before', hsplit⟩ := hscan htext
      have hlength := congrArg List.length htext
      rw [List.length_map, List.length_map] at hlength
      rw [hsplit, List.take_left' hlength]
      exact htext
  · intro h
    obtain ⟨before', hsplit⟩ := hscan ((isName_cons hname).mp h).2
    refine ⟨before', ?_⟩
    rw [List.cons_append, ← hsplit]

theorem key_letters : ∀ letter ∈ ['e', 'y'],
    letter.toLower = letter ∧ startsName letter = false :=
  Text.forall_mem_of_all (by decide)

theorem password_letters : ∀ letter ∈ ['a', 's', 's', 'w', 'o', 'r', 'd'],
    letter.toLower = letter ∧ startsName letter = false :=
  Text.forall_mem_of_all (by decide)

/-- Where nothing is found, the name read behind the first scan is the one that was there. -/
theorem nameIn_scan (c : Char) :
    nameIn (c :: scan isAlphanumeric before rest) = nameIn (c :: rest) ∧
      ∀ name, nameIn (c :: rest) = some name → ∃ before',
        (c :: scan isAlphanumeric before rest).drop name.toList.length =
          scan isAlphanumeric before' ((c :: rest).drop name.toList.length) := by
  have hkey := isName_scan isAlphanumeric before rest c key_toList key_letters
  have hpassword := isName_scan isAlphanumeric before rest c password_toList password_letters
  constructor
  · apply List.find?_congr
    intro name hname
    rcases List.mem_cons.mp hname with rfl | hlater
    · exact hkey.1
    · rw [List.mem_singleton.mp hlater]
      exact hpassword.1
  · intro name hname
    have hmem := List.mem_of_find?_eq_some hname
    have hisName : isName name ((c :: rest).take name.toList.length) = true :=
      List.find?_some (p := fun param => isName param ((c :: rest).take param.toList.length))
        hname
    have hsplit : ∃ before', (c :: scan isAlphanumeric before rest) =
        (c :: rest).take name.toList.length ++
          scan isAlphanumeric before' ((c :: rest).drop name.toList.length) := by
      rcases List.mem_cons.mp hmem with rfl | hlater
      · exact hkey.2 hisName
      · obtain rfl := List.mem_singleton.mp hlater
        exact hpassword.2 hisName
    obtain ⟨before', hsplit⟩ := hsplit
    refine ⟨before', ?_⟩
    rw [hsplit, List.drop_left' (nameIn_length hname).1]

theorem isQuote_opening {afterName : List Char} {opening : Opening}
    (h : openingOf afterName = some opening) :
    opening.quote = [] ∨ opening.quote = ['"'] ∨ opening.quote = ['\\', '"'] := by
  obtain ⟨afterQuote, afterSeparator, _, _, rfl⟩ := openingOf_eq_some.mp h
  exact isQuote_quoteOf _

theorem secretIn_scan_of_none {c : Char}
    (h : secretIn isAlphanumeric before (c :: rest) = none) :
    secretIn isAlphanumeric before (c :: scan isAlphanumeric (some c) rest) = none := by
  by_contra hsome
  obtain ⟨found, hfound⟩ := Option.ne_none_iff_exists'.mp hsome
  obtain ⟨name, opening, hname, hbefore, hopening, hvalue, _⟩ := secretIn_eq_some.mp hfound
  obtain ⟨hsame, hdrop⟩ := nameIn_scan isAlphanumeric (some c) rest c
  rw [hsame] at hname
  obtain ⟨before', hafter⟩ := hdrop name hname
  rw [hafter] at hopening
  rcases openingOf_scan isAlphanumeric before' ((c :: rest).drop name.toList.length) with
    ⟨_, hnone⟩ | ⟨first, before'', hfirst, hscan⟩
  · rw [hnone] at hopening
    cases hopening
  · rw [hscan] at hopening
    obtain rfl := Option.some.inj hopening
    have hquote := isQuote_opening hfirst
    have hshown : valueOf first.quote first.body ≠ [] := by
      intro hnil
      apply hvalue
      rw [valueOf_eq_nil_iff hquote, closes_scan_iff _ _ _ hquote]
      exact (valueOf_eq_nil_iff hquote first.body).mp hnil
    have hagain := secretIn_eq_some.mpr ⟨name, first, hname, hbefore, hfirst, hshown, rfl⟩
    rw [h] at hagain
    cases hagain

theorem nameIn_swap {written text other : List Char} {name : String}
    (hlength : written.length = name.toList.length) (h : nameIn (written ++ text) = some name) :
    nameIn (written ++ other) = some name := by
  rw [nameIn_eq] at h ⊢
  split at h
  case isTrue hkey =>
    obtain rfl := Option.some.inj h
    have hlong : written.length = 3 := hlength
    rw [List.take_left' hlong] at hkey ⊢
    rw [if_pos hkey]
  case isFalse hkey =>
    split at h
    case isFalse => cases h
    case isTrue hpassword =>
      obtain rfl := Option.some.inj h
      have hlong : written.length = 8 := hlength
      rw [List.take_append_of_le_length (by omega)] at hkey ⊢
      rw [List.take_left' hlong] at hpassword ⊢
      rw [if_neg hkey, if_pos hpassword]

theorem quoteOf_swap {quote text : List Char}
    (hquote : quote = [] ∨ quote = ['"'] ∨ quote = ['\\', '"'])
    (htext : ∀ c, text.head? = some c → c ≠ '"' ∧ c ≠ '\\') : quoteOf (quote ++ text) = quote := by
  rcases hquote with rfl | rfl | rfl
  · rw [List.nil_append]
    rcases quoteOf_cases text with ⟨_, tail, rfl⟩ | ⟨_, tail, rfl⟩ | ⟨hnil, _⟩
    · exact absurd rfl (htext '\\' rfl).2
    · exact absurd rfl (htext '"' rfl).1
    · exact hnil
  · rfl
  · rfl

theorem filler_head {read text : List Char} {stop : Char}
    (hread : ∀ c ∈ read, isFiller c = true) (hstop : stop ≠ '"' ∧ stop ≠ '\\') :
    ∀ c, (read ++ stop :: text).head? = some c → c ≠ '"' ∧ c ≠ '\\' := by
  intro c hc
  cases read with
  | nil =>
    obtain rfl := Option.some.inj hc
    exact hstop
  | cons first read =>
    obtain rfl := Option.some.inj hc
    have hfiller := hread first List.mem_cons_self
    constructor
    · rintro rfl
      exact absurd hfiller (by decide)
    · rintro rfl
      exact absurd hfiller (by decide)

theorem openingOf_swap {afterName body : List Char} {opening : Opening} {stop : Char}
    (h : openingOf afterName = some opening) (hstop : stop ≠ '"' ∧ stop ≠ '\\')
    (hbody : isFiller stop = false) :
    openingOf (opening.between ++ (opening.quote ++ stop :: body)) =
      some { opening with body := stop :: body } := by
  obtain ⟨afterQuote, afterSeparator, _, hdrop, rfl⟩ := openingOf_eq_some.mp h
  have hgap : ∀ c ∈ afterQuote.takeWhile isFiller, isFiller c = true :=
    fun c hc => List.mem_takeWhile_imp hc
  have hgap' : ∀ c ∈ afterSeparator.takeWhile isFiller, isFiller c = true :=
    fun c hc => List.mem_takeWhile_imp hc
  generalize afterQuote.takeWhile isFiller = gap at hgap
  generalize afterSeparator.takeWhile isFiller = gap' at hgap'
  have hnameQuote := isQuote_quoteOf afterName
  have hvalueQuote := isQuote_quoteOf (afterSeparator.dropWhile isFiller)
  generalize quoteOf afterName = nameQuote at hnameQuote
  generalize quoteOf (afterSeparator.dropWhile isFiller) = quote at hvalueQuote
  have hseparates : separatorOf nameQuote ≠ '"' ∧ separatorOf nameQuote ≠ '\\' ∧
      isFiller (separatorOf nameQuote) = false := by
    unfold separatorOf
    split <;> decide
  have hquote : quoteOf (quote ++ stop :: body) = quote := by
    apply quoteOf_swap hvalueQuote
    intro c hc
    obtain rfl := Option.some.inj hc
    exact hstop
  have hstopped : ∀ c, (quote ++ stop :: body).head? = some c → isFiller c = false := by
    intro c hc
    rcases hvalueQuote with rfl | rfl | rfl
    · obtain rfl := Option.some.inj hc
      exact hbody
    · obtain rfl := Option.some.inj hc
      decide
    · obtain rfl := Option.some.inj hc
      decide
  have hfirst : quoteOf (nameQuote ++ (gap ++ separatorOf nameQuote ::
      (gap' ++ (quote ++ stop :: body)))) = nameQuote :=
    quoteOf_swap hnameQuote (filler_head hgap ⟨hseparates.1, hseparates.2.1⟩)
  have hstopped' : ∀ c, (separatorOf nameQuote :: (gap' ++ (quote ++ stop :: body))).head? =
      some c → isFiller c = false := by
    intro c hc
    obtain rfl := Option.some.inj hc
    exact hseparates.2.2
  have hfillers := takeWhile_stop hgap hstopped'
  have hfillers' := takeWhile_stop hgap' hstopped
  dsimp only
  have hassoc : nameQuote ++ (gap ++ separatorOf nameQuote :: gap') ++ (quote ++ stop :: body) =
      nameQuote ++ (gap ++ separatorOf nameQuote :: (gap' ++ (quote ++ stop :: body))) := by
    simp only [List.append_assoc, List.cons_append]
  rw [hassoc, openingOf_eq_some]
  refine ⟨gap ++ separatorOf nameQuote :: (gap' ++ (quote ++ stop :: body)),
    gap' ++ (quote ++ stop :: body), ?_, ?_, ?_⟩
  · rw [hfirst]
  · rw [hfirst, hfillers.2]
  · rw [hfirst, hfillers.1, hfillers'.1, hfillers'.2, hquote, List.drop_left' rfl]

theorem mask_plain : ∀ c ∈ mask.toList, Plain c := by
  unfold Plain
  exact Text.forall_mem_of_all (by decide)

/-- With its value masked, and whatever may follow a value behind it, a secret is found
where it was, the mask its value. -/
theorem secretIn_swap {found : Found} (h : secretIn isAlphanumeric before rest = some found) :
    ∃ quote, (quote = [] ∨ quote = ['"'] ∨ quote = ['\\', '"']) ∧ Closes quote found.behind ∧
      ∀ behind, Closes quote behind →
        secretIn isAlphanumeric before (found.front ++ (mask.toList ++ behind)) =
          some ⟨found.front, mask.toList, behind⟩ := by
  obtain ⟨name, opening, hname, hbefore, hopening, _, rfl⟩ := secretIn_eq_some.mp h
  have hquote := isQuote_opening hopening
  have hlength := (nameIn_length hname).1
  rw [← List.take_append_drop name.toList.length rest] at hname
  generalize rest.take name.toList.length = written at hname hlength
  refine ⟨opening.quote, hquote, closes_behind hquote opening.body, ?_⟩
  intro behind hcloses
  have hmask : mask.toList ++ behind = '<' :: ("redacted>".toList ++ behind) := rfl
  have hvalue := valueOf_plain hquote mask_plain hcloses
  have hswap : openingOf (opening.between ++ (opening.quote ++ '<' ::
      ("redacted>".toList ++ behind))) = _ := openingOf_swap hopening (by decide) (by decide)
  rw [← hmask] at hswap
  have hassoc : written ++ (opening.between ++ opening.quote) ++ (mask.toList ++ behind) =
      written ++ (opening.between ++ (opening.quote ++ (mask.toList ++ behind))) := by
    simp only [List.append_assoc]
  dsimp only
  rw [hassoc, secretIn_eq_some]
  refine ⟨name, { opening with body := mask.toList ++ behind }, nameIn_swap hlength hname,
    hbefore, ?_, ?_, ?_⟩
  · rw [List.drop_left' hlength]
    exact hswap
  · dsimp only
    rw [hvalue]
    decide
  · dsimp only
    rw [hvalue, List.take_left' hlength, List.drop_left' rfl]

theorem startsName_of_endsValue {c : Char} (h : endsValue c = true) : startsName c = false := by
  have hlower : ∀ letter : Char, c.toLower = letter → c = letter ∨ c.toNat + 32 = letter.toNat := by
    rintro letter rfl
    unfold Char.toLower
    split
    case isTrue hupper =>
      right
      have hle : c.val.toNat ≤ 90 := hupper.2
      change c.val.toNat + 32 = (c.val + ('a'.val - 'A'.val)).toNat
      rw [UInt32.toNat_add]
      change _ = (c.val.toNat + 32) % _
      omega
    case isFalse => exact Or.inl rfl
  have hnot : c ≠ 'k' ∧ c ≠ 'K' ∧ c ≠ 'p' ∧ c ≠ 'P' := by
    refine ⟨?_, ?_, ?_, ?_⟩ <;> rintro rfl <;> exact absurd h (by decide)
  unfold startsName
  rw [Bool.or_eq_false_iff, beq_eq_false_iff_ne, beq_eq_false_iff_ne]
  constructor
  · intro hk
    rcases hlower 'k' hk with heq | hcode
    · exact hnot.1 heq
    · apply hnot.2.1
      apply Char.toNat_inj.mp
      exact Nat.add_right_cancel (m := 32) hcode
  · intro hp
    rcases hlower 'p' hp with heq | hcode
    · exact hnot.2.2.1 heq
    · apply hnot.2.2.2
      apply Char.toNat_inj.mp
      exact Nat.add_right_cancel (m := 32) hcode

theorem closes_startsName {quote tail : List Char} {c : Char}
    (hquote : quote = [] ∨ quote = ['"'] ∨ quote = ['\\', '"'])
    (h : Closes quote (c :: tail)) : startsName c = false := by
  rcases h with hnil | hends
  · cases hnil
  · rcases hquote with rfl | rfl | rfl
    · rw [if_pos rfl] at hends
      obtain ⟨first, hfirst, hends⟩ := hends
      obtain rfl := Option.some.inj hfirst
      exact startsName_of_endsValue hends
    · rw [if_neg (by simp)] at hends
      obtain ⟨rfl, _⟩ := List.cons_prefix_cons.mp hends
      decide
    · rw [if_neg (by simp)] at hends
      obtain ⟨rfl, _⟩ := List.cons_prefix_cons.mp hends
      decide

/-- In front of what ended a value no name starts, so the character before is not read. -/
theorem scan_of_closes {quote : List Char}
    (hquote : quote = [] ∨ quote = ['"'] ∨ quote = ['\\', '"']) (h : Closes quote rest)
    (other : Option Char) :
    scan isAlphanumeric before rest = scan isAlphanumeric other rest := by
  cases rest with
  | nil => rw [scan_nil, scan_nil]
  | cons c tail =>
    have hc := closes_startsName hquote h
    rw [scan_cons _ _ hc, scan_cons _ _ hc]

theorem scan_scan :
    scan isAlphanumeric before (scan isAlphanumeric before rest) =
      scan isAlphanumeric before rest := by
  fun_induction scan isAlphanumeric before rest with
  | case1 => rw [scan_nil]
  | case2 before c tail found hfound ih =>
    obtain ⟨quote, hquote, hcloses, hswap⟩ := secretIn_swap _ _ _ hfound
    generalize hlast : found.value.getLast? = last at ih ⊢
    have hclosed := (closes_scan_iff isAlphanumeric last found.behind hquote).mpr hcloses
    have hagain := hswap _ hclosed
    obtain ⟨first, out, hout⟩ := List.exists_cons_of_ne_nil
      (l := found.front ++ (mask.toList ++ scan isAlphanumeric last found.behind)) (by
        intro hnil
        have hmask := (List.append_eq_nil_iff.mp (List.append_eq_nil_iff.mp hnil).2).1
        exact absurd hmask (by decide))
    rw [hout] at hagain ⊢
    rw [scan_of_found hagain, ← hout]
    dsimp only
    rw [scan_of_closes _ _ _ hquote hclosed last, ih]
  | case3 before c tail hnone ih =>
    rw [scan_of_none (secretIn_scan_of_none _ _ _ hnone), ih]

end Rescan

def Spared (known : List Secret) : Prop :=
  ∀ secret ∈ known, '<' ∉ secret.value.toList ∧ '>' ∉ secret.value.toList ∧
    ¬secret.value.toList <:+: mask.toList

theorem Spared.spares {known : List Secret} (hspared : Spared known) :
    ∀ secret ∈ known, maskParts.Spares secret.value.toList := by
  intro secret hsecret
  obtain ⟨hopening, hclosing, hmask⟩ := hspared secret hsecret
  refine ⟨hopening, hclosing, ?_⟩
  intro hinside
  apply hmask
  rw [mask_toList]
  exact hinside.trans ⟨['<'], ['>'], rfl⟩

theorem Spared.not_infix_scrubbedText {known : List Secret} (hspared : Spared known)
    (isAlphanumeric : Char → Bool) (text : String) :
    ∀ secret ∈ known,
      ¬secret.value.toList <:+: (scrubbedText isAlphanumeric known text).toList := by
  intro secret hsecret hoccurs
  unfold scrubbedText at hoccurs
  rw [String.toList_ofList] at hoccurs
  have hmasked := scan_masked isAlphanumeric none (maskKnownValues known text.toList)
  apply maskKnownValues_spec hspared.spares text.toList secret hsecret
  exact hmasked.isInfix (hspared.spares secret hsecret) hoccurs

/-- No remembered secret is left in a scrubbed text, scrubbing it again changes nothing,
and the loop that scrubs it ends, with every slice it takes on character boundaries. -/
theorem scrub_leaks_nothing (isAlphanumeric : Char → Bool) (known : List Secret)
    (hspared : ∀ secret ∈ known, '<' ∉ secret.value.toList ∧ '>' ∉ secret.value.toList ∧
      ¬secret.value.toList <:+: mask.toList) (text : String) :
    ∃ out, scrub isAlphanumeric known text = some out ∧
      (∀ secret ∈ known, ¬secret.value.toList <:+: out.toList) ∧
      scrub isAlphanumeric known out = some out := by
  have hclean := Spared.not_infix_scrubbedText hspared isAlphanumeric text
  refine ⟨_, scrub_eq isAlphanumeric known text, hclean, ?_⟩
  rw [scrub_eq]
  apply congrArg some
  unfold scrubbedText at hclean ⊢
  rw [maskKnownValues_of_absent hclean, String.toList_ofList, scan_scan]

def nestedKeys : List Secret := [⟨"1.2.3.4", by decide⟩, ⟨"1.2.3.4.5", by decide⟩]

theorem nestedKeys_spared : Spared nestedKeys := by
  intro secret hsecret
  rcases List.mem_cons.mp hsecret with rfl | hlater
  · exact ⟨by decide, by decide, Text.splitAtFirst_isNone_iff.mp (by decide)⟩
  · obtain rfl := List.mem_singleton.mp hlater
    exact ⟨by decide, by decide, Text.splitAtFirst_isNone_iff.mp (by decide)⟩

theorem scrub_leaks_nothing_nested :
    ∃ out, scrub Char.isAlphanum nestedKeys "key=1.2.3.4.5, kd said 1.2.3.4" = some out ∧
      (∀ secret ∈ nestedKeys, ¬secret.value.toList <:+: out.toList) ∧
      scrub Char.isAlphanum nestedKeys out = some out :=
  scrub_leaks_nothing Char.isAlphanum nestedKeys nestedKeys_spared _

end WindbgMcp.KdConn
