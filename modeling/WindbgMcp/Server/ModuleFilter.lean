import WindbgMcp.Library.Wildcards
import Mathlib.Data.Prod.Lex

/-! The filter of a module listing: how a pattern is walked along a name, and when that
finds what the wildcards of the pattern stand for. -/
namespace WindbgMcp.Server

open Library

/-- The lower-case and the upper-case form of a character, of one character or more. -/
structure CaseMapping where
  toLowercase : Char → List Char
  toUppercase : Char → List Char

def foldsToSame (mapping : CaseMapping) (a b : Char) : Bool :=
  a == b || mapping.toLowercase a == mapping.toLowercase b ||
    mapping.toUppercase a == mapping.toUppercase b

/-- Where the walk stands in the pattern and in the name, the last `*` it came to, and how
far into the name that one reaches. -/
structure Walk (pattern : List Char) where
  p : Nat
  n : Nat
  star : Option Nat
  resume : Nat
  inside : p ≤ pattern.length
  behindStar : ∀ place ∈ star, place < p

section

variable (mapping : CaseMapping) {pattern : List Char}

theorem exists_of_any {found : Option Char} {holds : Char → Bool}
    (h : found.any holds = true) : ∃ item, found = some item ∧ holds item = true := by
  cases found with
  | none => cases h
  | some item => exact ⟨item, rfl, h⟩

theorem lt_length_of_any {items : List Char} {place : Nat} {holds : Char → Bool}
    (h : (items[place]?).any holds = true) : place < items.length := by
  obtain ⟨item, hitem, -⟩ := exists_of_any h
  exact (List.getElem?_eq_some_iff.mp hitem).1

def standsFor (item letter : Char) : Bool := item == '?' || foldsToSame mapping item letter

/-- One turn against a character of the name.  It fails where no `*` gives ground. -/
def turn (walk : Walk pattern) (letter : Char) : Option (Walk pattern) :=
  if h : (pattern[walk.p]?).any (standsFor mapping · letter) = true then
    some
      { walk with
        p := walk.p + 1
        n := walk.n + 1
        inside := lt_length_of_any h
        behindStar := fun place hplace => Nat.lt_succ_of_lt (walk.behindStar place hplace) }
  else if h : (pattern[walk.p]?).any (· == '*') = true then
    some
      { walk with
        star := some walk.p
        resume := walk.n
        p := walk.p + 1
        inside := lt_length_of_any h
        behindStar := fun _ hplace => Option.some.inj hplace ▸ Nat.lt_succ_self _ }
  else
    match hstar : walk.star with
    | none => none
    | some star =>
      some
        { walk with
          resume := walk.resume + 1
          n := walk.resume + 1
          p := star + 1
          inside := Nat.le_trans (walk.behindStar star hstar) walk.inside
          behindStar := fun _ hplace =>
            Option.some.inj (hstar.symm.trans hplace) ▸ Nat.lt_succ_self _ }

/-- How far into the pattern the last `*` stands. -/
def Walk.committed (walk : Walk pattern) : Nat := walk.star.elim 0 (· + 1)

theorem Walk.committed_le (walk : Walk pattern) : walk.committed ≤ walk.p := by
  unfold committed
  cases hstar : walk.star with
  | none => exact Nat.zero_le _
  | some star => exact walk.behindStar star hstar

/-- What a turn does. -/
inductive Turned (walk : Walk pattern) (letter : Char) : Walk pattern → Prop where
  | stands (item : Char) (next : Walk pattern) (hitem : pattern[walk.p]? = some item)
      (hstands : standsFor mapping item letter = true) (hp : next.p = walk.p + 1)
      (hn : next.n = walk.n + 1) (hstar : next.star = walk.star)
      (hresume : next.resume = walk.resume) : Turned walk letter next
  | commits (next : Walk pattern) (hitem : pattern[walk.p]? = some '*')
      (hfree : standsFor mapping '*' letter = false) (hp : next.p = walk.p + 1)
      (hn : next.n = walk.n) (hstar : next.star = some walk.p)
      (hresume : next.resume = walk.n) : Turned walk letter next
  | yields (star : Nat) (next : Walk pattern) (hstar : walk.star = some star)
      (hstuck : ∀ item ∈ pattern[walk.p]?, standsFor mapping item letter = false ∧ item ≠ '*')
      (hp : next.p = star + 1) (hn : next.n = walk.resume + 1) (hsame : next.star = some star)
      (hresume : next.resume = walk.resume + 1) : Turned walk letter next

theorem turn_eq_some {walk next : Walk pattern} {letter : Char}
    (h : turn mapping walk letter = some next) : Turned mapping walk letter next := by
  unfold turn at h
  split at h
  · rename_i hany
    obtain ⟨item, hitem, hstands⟩ := exists_of_any hany
    cases h
    exact .stands item _ hitem hstands rfl rfl rfl rfl
  · split at h
    · rename_i hnot hany
      obtain ⟨item, hitem, hstar⟩ := exists_of_any hany
      obtain rfl := eq_of_beq hstar
      rw [hitem] at hnot
      cases h
      exact .commits _ hitem (Bool.eq_false_iff.mpr hnot) rfl rfl rfl rfl
    · rename_i hnot hnotStar
      split at h
      · cases h
      · rename_i star hstar
        cases h
        refine .yields star _ hstar ?_ rfl rfl hstar rfl
        intro item hitem
        rw [Option.mem_def.mp hitem] at hnot hnotStar
        exact ⟨Bool.eq_false_iff.mpr hnot, fun heq => hnotStar (beq_iff_eq.mpr heq)⟩

theorem turn_eq_none {walk : Walk pattern} {letter : Char}
    (h : turn mapping walk letter = none) : walk.star = none ∧
      ∀ item ∈ pattern[walk.p]?, standsFor mapping item letter = false ∧ item ≠ '*' := by
  unfold turn at h
  split at h
  · cases h
  · split at h
    · cases h
    · rename_i hnot hnotStar
      split at h
      · rename_i hstar
        refine ⟨hstar, ?_⟩
        intro item hitem
        rw [Option.mem_def.mp hitem] at hnot hnotStar
        exact ⟨Bool.eq_false_iff.mpr hnot, fun heq => hnotStar (beq_iff_eq.mpr heq)⟩
      · cases h

/-- A turn comes to a later `*`, or gives more ground at the same one, or reads on. -/
theorem Turned.decreases {walk next : Walk pattern} {letter : Char} {size : Nat}
    (hn : walk.n < size) (h : Turned mapping walk letter next) :
    Prod.Lex (· < ·) (Prod.Lex (· < ·) (· < ·))
      (pattern.length - next.committed, size - next.resume, size - next.n)
      (pattern.length - walk.committed, size - walk.resume, size - walk.n) := by
  simp only [Prod.lex_def]
  cases h with
  | stands item next hitem hstands hp hn' hstar hresume =>
    rw [Walk.committed, hstar, hresume, hn']
    right
    refine ⟨rfl, Or.inr ⟨rfl, ?_⟩⟩
    omega
  | commits next hitem hfree hp hn' hstar hresume =>
    left
    have hbefore := walk.committed_le
    have hinside := (List.getElem?_eq_some_iff.mp hitem).1
    rw [Walk.committed, hstar]
    simp only [Option.elim_some]
    omega
  | yields star next hstar hstuck hp hn' hsame hresume =>
    right
    refine ⟨by rw [Walk.committed, Walk.committed, hsame, hstar], ?_⟩
    rw [hresume, hn']
    omega

def walkOn (name : List Char) (walk : Walk pattern) : Bool :=
  if hn : walk.n < name.length then
    match hturn : turn mapping walk name[walk.n] with
    | none => false
    | some next => walkOn name next
  else (pattern.drop walk.p).all (· == '*')
termination_by (pattern.length - walk.committed, name.length - walk.resume, name.length - walk.n)
decreasing_by exact (turn_eq_some mapping hturn).decreases mapping hn

def matchesModulePattern (pattern name : String) : Bool :=
  walkOn mapping name.toList
    { p := 0, n := 0, star := none, resume := 0, inside := Nat.zero_le _,
      behindStar := fun _ h => (by cases h) : Walk pattern.toList }

/-! ## What the wildcards stand for -/

/-- A `*` stands for any run of characters, and every other character of the pattern for
one; under `sticks`, a `*` in front of a character it stands for itself stands for no other. -/
def filterKinds (sticks : Char → Char → Bool) : Wildcards Char Char where
  run := (· == '*')
  one := standsFor mapping
  sticks := sticks

def Globs (pattern name : String) : Prop :=
  Splits (filterKinds mapping fun _ _ => false) pattern.toList name.toList

/-- The name splits along the pattern so that a `*` in front of a character that folds to
`*` stands for this character alone. -/
def GlobsStuck (pattern name : String) : Prop :=
  Splits (filterKinds mapping (standsFor mapping)) pattern.toList name.toList

section

variable {mapping} {name : List Char}

/-- The pattern behind the last `*` was read character by character, as far as the walk. -/
def Walk.Along (mapping : CaseMapping) (name : List Char) (walk : Walk pattern) : Prop :=
  ∀ star ∈ walk.star, ∃ count, walk.p = star + 1 + count ∧ walk.n = walk.resume + count ∧
    Steps (filterKinds mapping (standsFor mapping)) pattern name (star + 1) walk.resume count

/-- The rest splits from where the walk stands, or from further along behind its last `*`. -/
def Walk.Open (mapping : CaseMapping) (name : List Char) (walk : Walk pattern) : Prop :=
  SplitsAt (filterKinds mapping (standsFor mapping)) pattern name walk.p walk.n ∨
    ∃ star ∈ walk.star, ∃ m, walk.resume < m ∧ m ≤ name.length ∧
      SplitsAt (filterKinds mapping (standsFor mapping)) pattern name (star + 1) m

theorem Turned.along {walk next : Walk pattern} {letter : Char}
    (h : Turned mapping walk letter next) (hletter : name[walk.n]? = some letter)
    (halong : walk.Along mapping name) : next.Along mapping name := by
  intro star hstar
  cases h with
  | stands item next hitem hstands hp hn hsame hresume =>
    rw [hsame] at hstar
    obtain ⟨count, hcount, hreached, hsteps⟩ := halong star hstar
    refine ⟨count + 1, by omega, by omega, ?_⟩
    rw [hresume]
    intro j hj
    obtain hlt | heq := Nat.lt_succ_iff_lt_or_eq.mp hj
    · exact hsteps j hlt
    · refine ⟨item, letter, ?_, ?_, hstands⟩
      · rw [heq, ← hcount, hitem]
      · rw [heq, ← hreached, hletter]
  | commits next hitem hfree hp hn hsame hresume =>
    rw [hsame] at hstar
    cases hstar
    exact ⟨0, hp, hn.trans hresume.symm, fun _ hj => absurd hj (Nat.not_lt_zero _)⟩
  | yields ground next hstar' hstuck hp hn hsame hresume =>
    rw [hsame] at hstar
    cases hstar
    exact ⟨0, hp, hn.trans hresume.symm, fun _ hj => absurd hj (Nat.not_lt_zero _)⟩

/-- Behind the last `*`, a split from further along reaches the walk or passes it. -/
theorem Walk.Along.passes {walk : Walk pattern} (halong : walk.Along mapping name) {star m : Nat}
    (hstar : star ∈ walk.star) (hm : walk.resume < m) (hend : m ≤ name.length)
    (h : SplitsAt (filterKinds mapping (standsFor mapping)) pattern name (star + 1) m) :
    ∃ n, walk.n ≤ n ∧ n ≤ name.length ∧
      SplitsAt (filterKinds mapping (standsFor mapping)) pattern name walk.p n := by
  obtain ⟨count, hcount, hreached, hsteps⟩ := halong star hstar
  rw [hcount, hreached]
  exact hsteps.passes (fun _ _ _ hone => hone) (Nat.le_of_lt hm) hend h

theorem splitsAt_stands {p n : Nat} {item letter : Char} (hitem : pattern[p]? = some item)
    (hletter : name[n]? = some letter) (hstands : standsFor mapping item letter = true) :
    SplitsAt (filterKinds mapping (standsFor mapping)) pattern name p n ↔
      SplitsAt (filterKinds mapping (standsFor mapping)) pattern name (p + 1) (n + 1) := by
  rw [SplitsAt, SplitsAt, drop_of_getElem? hitem, drop_of_getElem? hletter]
  cases hrun : (filterKinds mapping (standsFor mapping)).run item with
  | true => exact Splits.cons_stuck_iff hrun hstands
  | false =>
    rw [Splits.cons_one_iff hrun]
    constructor
    · rintro ⟨_, _, hsame, -, hrest⟩
      cases hsame
      exact hrest
    · intro hrest
      exact ⟨letter, _, rfl, hstands, hrest⟩

theorem splitsAt_run {p n : Nat} (hitem : pattern[p]? = some '*') (hn : n ≤ name.length)
    (h : SplitsAt (filterKinds mapping (standsFor mapping)) pattern name p n) :
    ∃ m, n ≤ m ∧ m ≤ name.length ∧
      SplitsAt (filterKinds mapping (standsFor mapping)) pattern name (p + 1) m := by
  rw [SplitsAt, drop_of_getElem? hitem, Splits.cons_run_iff rfl] at h
  obtain ⟨count, hcount, -, hrest⟩ := h
  rw [List.length_drop] at hcount
  rw [List.drop_drop] at hrest
  exact ⟨n + count, by omega, by omega, hrest⟩

/-- A `*` that does not stand for the next character itself stands for any run. -/
theorem splitsAt_commits {p n m : Nat} (hitem : pattern[p]? = some '*')
    (hfree : ∀ letter ∈ name[n]?, standsFor mapping '*' letter = false) (hnm : n ≤ m)
    (hm : m ≤ name.length)
    (h : SplitsAt (filterKinds mapping (standsFor mapping)) pattern name (p + 1) m) :
    SplitsAt (filterKinds mapping (standsFor mapping)) pattern name p n := by
  rw [SplitsAt, drop_of_getElem? hitem, Splits.cons_free_iff rfl]
  · refine ⟨m - n, by rw [List.length_drop]; omega, ?_⟩
    rw [List.drop_drop, Nat.add_sub_cancel' hnm]
    exact h
  · intro letter hletter
    rw [List.head?_drop] at hletter
    exact hfree letter hletter

/-- No split goes on where the walk can neither read a character nor commit to a `*`. -/
theorem not_splitsAt {p n : Nat} {letter : Char} (hletter : name[n]? = some letter)
    (hstuck : ∀ item ∈ pattern[p]?, standsFor mapping item letter = false ∧ item ≠ '*') :
    ¬SplitsAt (filterKinds mapping (standsFor mapping)) pattern name p n := by
  intro hsplits
  rw [SplitsAt, drop_of_getElem? hletter] at hsplits
  cases hitem : pattern[p]? with
  | none =>
    rw [List.drop_eq_nil_of_le (List.getElem?_eq_none_iff.mp hitem), Splits.nil_iff] at hsplits
    cases hsplits
  | some item =>
    obtain ⟨hnot, hstar⟩ := hstuck item hitem
    rw [drop_of_getElem? hitem, Splits.cons_one_iff (beq_eq_false_iff_ne.mpr hstar)] at hsplits
    obtain ⟨_, _, hsame, hone, -⟩ := hsplits
    cases hsame
    exact absurd hone (Bool.eq_false_iff.mp hnot)

theorem Turned.open_iff {walk next : Walk pattern} {letter : Char}
    (h : Turned mapping walk letter next) (hletter : name[walk.n]? = some letter)
    (halong : walk.Along mapping name) : walk.Open mapping name ↔ next.Open mapping name := by
  have hlt := (List.getElem?_eq_some_iff.mp hletter).1
  unfold Walk.Open
  cases h with
  | stands item next hitem hstands hp hn hsame hresume =>
    rw [hp, hn, hsame, hresume, splitsAt_stands hitem hletter hstands]
  | commits next hitem hfree hp hn hsame hresume =>
    rw [hp, hn, hsame, hresume]
    have hfree' : ∀ other ∈ name[walk.n]?, standsFor mapping '*' other = false := by
      rw [hletter]
      rintro _ ⟨⟩
      exact hfree
    have hcommits {m : Nat} := splitsAt_commits (m := m) hitem hfree'
    have hgoesOn : ∀ m, walk.n ≤ m → m ≤ name.length →
        SplitsAt (filterKinds mapping (standsFor mapping)) pattern name (walk.p + 1) m →
          SplitsAt (filterKinds mapping (standsFor mapping)) pattern name (walk.p + 1) walk.n ∨
            ∃ star ∈ some walk.p, ∃ m, walk.n < m ∧ m ≤ name.length ∧
              SplitsAt (filterKinds mapping (standsFor mapping)) pattern name (star + 1) m := by
      intro m hnm hm hrest
      obtain rfl | hlt := Nat.eq_or_lt_of_le hnm
      · exact Or.inl hrest
      · exact Or.inr ⟨walk.p, rfl, m, hlt, hm, hrest⟩
    constructor
    · rintro (hhere | ⟨star, hstar, m, hm, hend, hlater⟩)
      · obtain ⟨m, hnm, hm, hrest⟩ := splitsAt_run hitem (Nat.le_of_lt hlt) hhere
        exact hgoesOn m hnm hm hrest
      · obtain ⟨k, hnk, hk, hreached⟩ := halong.passes hstar hm hend hlater
        obtain ⟨m, hkm, hm, hrest⟩ := splitsAt_run hitem hk hreached
        exact hgoesOn m (Nat.le_trans hnk hkm) hm hrest
    · rintro (hhere | ⟨_, ⟨⟩, m, hm, hend, hlater⟩)
      · exact Or.inl (hcommits (Nat.le_refl _) (Nat.le_of_lt hlt) hhere)
      · exact Or.inl (hcommits (Nat.le_of_lt hm) hend hlater)
  | yields star next hstar hstuck hp hn hsame hresume =>
    rw [hp, hn, hsame, hresume, hstar, or_iff_right (not_splitsAt hletter hstuck)]
    have hreached : walk.resume + 1 ≤ name.length := by
      obtain ⟨count, -, hcount, -⟩ := halong star hstar
      omega
    constructor
    · rintro ⟨_, ⟨⟩, m, hm, hend, hlater⟩
      obtain rfl | hlt := Nat.eq_or_lt_of_le hm
      · exact Or.inl hlater
      · exact Or.inr ⟨star, rfl, m, hlt, hend, hlater⟩
    · rintro (hhere | ⟨_, ⟨⟩, m, hm, hend, hlater⟩)
      · exact ⟨star, rfl, walk.resume + 1, Nat.lt_succ_self _, hreached, hhere⟩
      · exact ⟨star, rfl, m, Nat.lt_of_succ_lt hm, hend, hlater⟩

theorem walkOn_iff (walk : Walk pattern) (halong : walk.Along mapping name) :
    walkOn mapping name walk = true ↔ walk.Open mapping name := by
  fun_induction walkOn mapping name walk with
  | case1 walk hn hturn =>
    have hletter := List.getElem?_eq_getElem hn
    obtain ⟨hstar, hstuck⟩ := turn_eq_none mapping hturn
    apply iff_of_false Bool.false_ne_true
    rintro (hhere | ⟨star, hsome, -⟩)
    · exact not_splitsAt hletter hstuck hhere
    · rw [hstar] at hsome
      cases hsome
  | case2 walk hn next hturn ih =>
    have hletter := List.getElem?_eq_getElem hn
    have hturned := turn_eq_some mapping hturn
    rw [hturned.open_iff hletter halong]
    exact ih (hturned.along hletter halong)
  | case3 walk hn =>
    have hempty : ∀ n, walk.n ≤ n →
        (SplitsAt (filterKinds mapping (standsFor mapping)) pattern name walk.p n ↔
          (pattern.drop walk.p).all (· == '*') = true) := by
      intro n hle
      rw [SplitsAt, List.drop_eq_nil_of_le (Nat.le_trans (Nat.le_of_not_lt hn) hle)]
      exact Splits.nil_right_iff
    rw [Walk.Open, hempty walk.n (Nat.le_refl _)]
    refine ⟨Or.inl, ?_⟩
    rintro (hhere | ⟨star, hstar, m, hm, hend, hlater⟩)
    · exact hhere
    · obtain ⟨k, hk, -, hreached⟩ := halong.passes hstar hm hend hlater
      exact (hempty k hk).mp hreached

theorem matchesModulePattern_iff {pattern name : String} :
    matchesModulePattern mapping pattern name = true ↔ GlobsStuck mapping pattern name := by
  rw [matchesModulePattern, walkOn_iff]
  · exact or_iff_left fun ⟨_, hstar, _⟩ => (by cases hstar)
  · intro star hstar
    cases hstar

theorem GlobsStuck.globs {pattern name : String} (h : GlobsStuck mapping pattern name) :
    Globs mapping pattern name := by
  unfold Globs
  refine Splits.loosen ?_ ?_ ?_ h
  · rfl
  · rfl
  · intro _ _ _ _ hnever
    cases hnever

end

end

/-- The filter answers for the glob of its pattern just where a name that has a split has
one in which no `*` of the pattern stands in front of a `*` for more than that. -/
theorem filter_globs_iff (mapping : CaseMapping) (pattern name : String) :
    (matchesModulePattern mapping pattern name = true ↔ Globs mapping pattern name) ↔
      (Globs mapping pattern name → GlobsStuck mapping pattern name) := by
  rw [matchesModulePattern_iff]
  constructor
  · intro h
    exact h.mpr
  · intro h
    exact ⟨GlobsStuck.globs, h⟩

def asciiCase : CaseMapping where
  toLowercase c := [c.toLower]
  toUppercase c := [c.toUpper]

theorem starred_name_missed :
    ¬(matchesModulePattern asciiCase "*" "*a" = true ↔ Globs asciiCase "*" "*a") := by
  intro h
  have hglobs : Globs asciiCase "*" "*a" := by
    apply Splits.run ['*', 'a'] rfl _ Splits.nil
    intro _ _ hnever
    cases hnever
  have hstuck := matchesModulePattern_iff.mp (h.mpr hglobs)
  have hrest := (Splits.cons_stuck_iff rfl rfl).mp hstuck
  cases Splits.nil_iff.mp hrest

end WindbgMcp.Server
