import Mathlib.Data.Nat.Bitwise
import WindbgMcp.Ioctl.Equality

/-! A64's chain of conditional compares, each on the zero flag the one before it left clear: what
the machine takes for equal, and which codes the walk names for it. -/
namespace WindbgMcp.Ioctl

structure Link (facts : Facts) where
  instruction : Instruction
  left : Register
  operand : Operand
  proved : Bool
  wide : fieldWidth ≤ left.width
  code : facts.get left.full = some (.code 0 0 proved)
  ulong : ∀ value, scalarOf facts (some operand) = some value → value < 2 ^ 32
  flags : instruction.writesFlags = true
  flow : isCall instruction.flow = false

structure Opening (facts : Facts) extends Link facts where
  operands : instruction.operands = [.register left, operand]
  effect : instruction.effect = .compare
  mnemonic : instruction.mnemonic = "cmp"
  named : ∀ right, operand = .register right → right.name = left.name → right = left

/-- A conditional compare, and the flags it writes where it does not compare. -/
structure Conditional (facts : Facts) extends Link facts where
  forced : Nat
  operands : instruction.operands = [.register left, operand, .immediate forced]
  effect : instruction.effect ≠ .compare
  mnemonic : instruction.mnemonic = "ccmp"
  condition : instruction.condition = some .notEqual

structure Chain (facts : Facts) where
  opening : Opening facts
  links : List (Conditional facts)
  last : Instruction
  target : Option Nat
  flow : last.flow = .branch target
  condition : last.condition = some .equal ∨ last.condition = some .notEqual
  mnemonic : last.mnemonic ≠ "cbz" ∧ last.mnemonic ≠ "cbnz"
  reads : last.reads = []

section Machine
variable {facts : Facts}

/-- What the operands of a compare are worth to the machine, for one control code. -/
structure Means (worth : Operand → Nat) (facts : Facts) (code : BitVec 32) : Prop where
  code : ∀ register proved, fieldWidth ≤ register.width →
    facts.get register.full = some (.code 0 0 proved) → worth (.register register) = code.toNat
  scalar : ∀ operand value, scalarOf facts (some operand) = some value → worth operand = value

def Link.equals (worth : Operand → Nat) (link : Link facts) : Bool :=
  worth (.register link.left) == worth link.operand

/-- The zero flag is bit 2 of `nzcv`. -/
def Conditional.keeps (link : Conditional facts) : Bool := link.forced.testBit 2

def Conditional.zero (worth : Operand → Nat) (zero : Bool) (link : Conditional facts) : Bool :=
  if zero then link.keeps else link.equals worth

def Chain.zero (worth : Operand → Nat) (chain : Chain facts) : Bool :=
  chain.links.foldl (Conditional.zero worth) (chain.opening.equals worth)

end Machine

structure Stretch where
  first : Option Nat
  rest : List (Option Nat) := []
  /-- The first is among the values of the stretch before, and that one does not repeat. -/
  repeated : Bool := false
  /-- The stretch before takes the first for equal. -/
  rejected : Bool := false
  deriving DecidableEq, Repr

namespace Stretch

def named (stretch : Stretch) : List (Option Nat) :=
  if stretch.repeated then [] else stretch.first :: stretch.rest

def accepted (stretch : Stretch) : List (Option Nat) :=
  if stretch.rejected then stretch.rest else stretch.first :: stretch.rest

def next (stretch : Stretch) (value : Option Nat) (keeps : Bool) : Stretch :=
  if keeps then { stretch with rest := stretch.rest ++ [value] }
  else
    { first := value, repeated := stretch.named.contains value
      rejected := stretch.accepted.contains value }

/-- A stretch that repeats is rejected and nothing but its first; one that does not is not
rejected, or holds its first again. -/
def Agrees (stretch : Stretch) : Prop :=
  if stretch.repeated then stretch.rejected = true ∧ stretch.rest = []
  else stretch.rejected = true → stretch.first ∈ stretch.rest

instance : DecidablePred Agrees := fun stretch => by
  unfold Agrees
  infer_instance

theorem agrees_iff (stretch : Stretch) :
    stretch.Agrees ↔ ∀ value, value ∈ stretch.named ↔ value ∈ stretch.accepted := by
  obtain ⟨first, rest, repeated, rejected⟩ := stretch
  unfold Agrees named accepted
  cases repeated with
  | true =>
    cases rejected with
    | true => simp [List.eq_nil_iff_forall_not_mem]
    | false =>
      simp only [if_true, Bool.false_eq_true, false_and, if_false, List.not_mem_nil, false_iff]
      exact fun h => h first List.mem_cons_self
  | false =>
    cases rejected with
    | true => simp
    | false => simp

theorem named_keep (stretch : Stretch) (value : Option Nat) :
    (stretch.next value true).named =
      if stretch.named.isEmpty then [] else stretch.named ++ [value] := by
  unfold next named
  cases stretch.repeated <;> rfl

theorem named_clear (stretch : Stretch) (value : Option Nat) :
    (stretch.next value false).named = if value ∈ stretch.named then [] else [value] := by
  change (if stretch.named.contains value = true then [] else [value]) = _
  simp only [List.contains_iff_mem]

theorem accepted_keep (stretch : Stretch) (value : Option Nat) :
    (stretch.next value true).accepted = stretch.accepted ++ [value] := by
  unfold next accepted
  cases stretch.rejected <;> rfl

theorem accepted_clear (stretch : Stretch) (value : Option Nat) :
    (stretch.next value false).accepted = if value ∈ stretch.accepted then [] else [value] := by
  change (if stretch.accepted.contains value = true then [] else [value]) = _
  simp only [List.contains_iff_mem]

theorem forall_next {P : Option Nat → Prop} {stretch : Stretch} {value : Option Nat} (keeps : Bool)
    (h : ∀ held ∈ stretch.first :: stretch.rest, P held) (hvalue : P value) :
    ∀ held ∈ (stretch.next value keeps).first :: (stretch.next value keeps).rest, P held := by
  unfold next
  cases keeps with
  | true =>
    simp only [if_true]
    rw [← List.cons_append, List.forall_mem_append]
    exact ⟨h, List.forall_mem_singleton.mpr hvalue⟩
  | false => exact List.forall_mem_singleton.mpr hvalue

end Stretch

section Values
variable {facts : Facts}

def Link.value (link : Link facts) : Option Nat := scalarOf facts (some link.operand)

namespace Chain

def Readable (chain : Chain facts) : Prop :=
  chain.opening.value.isSome = true ∧ ∀ link ∈ chain.links, link.value.isSome = true

def stretch (chain : Chain facts) : Stretch :=
  chain.links.foldl (fun stretch link => stretch.next link.value link.keeps)
    { first := chain.opening.value }

def instructions (chain : Chain facts) : List Instruction :=
  chain.opening.instruction :: chain.links.map fun link => link.instruction

def sites (chain : Chain facts) : List Nat := chain.instructions.map Instruction.address

def lands (chain : Chain facts) (next : Option Nat) : Option Nat :=
  if chain.last.condition = some .equal then chain.target else next

end Chain

variable {worth : Operand → Nat} {code : BitVec 32}

theorem Link.equals_iff (h : Means worth facts code) (link : Link facts)
    (hvalue : link.value.isSome = true) :
    link.equals worth = true ↔ link.value = some code.toNat := by
  obtain ⟨value, hvalue⟩ := Option.isSome_iff_exists.mp hvalue
  unfold Link.equals
  rw [beq_iff_eq, h.code _ _ link.wide link.code, h.scalar _ _ hvalue, hvalue]
  simp only [Option.some.injEq]
  exact eq_comm

/-- One conditional compare: the codes that leave the flag set are those the stretch accepts. -/
theorem Conditional.zero_iff (h : Means worth facts code) (link : Conditional facts)
    (hvalue : link.value.isSome = true) {zero : Bool} {stretch : Stretch}
    (hzero : zero = true ↔ some code.toNat ∈ stretch.accepted) :
    link.zero worth zero = true ↔
      some code.toNat ∈ (stretch.next link.value link.keeps).accepted := by
  have hequals := link.equals_iff h hvalue
  unfold Conditional.zero
  cases hkeeps : link.keeps with
  | true =>
    rw [Stretch.accepted_keep, List.mem_append, List.mem_singleton, ← hzero]
    cases zero with
    | true => simp
    | false => simp [hequals, eq_comm]
  | false =>
    rw [Stretch.accepted_clear]
    cases zero with
    | true =>
      have haccepted := hzero.mp rfl
      by_cases hmem : link.value ∈ stretch.accepted
      · simp [hmem]
      · simp only [hmem, if_true, if_false, List.mem_singleton, Bool.false_eq_true, false_iff]
        exact fun hsame => hmem (hsame ▸ haccepted)
    | false =>
      have haccepted : some code.toNat ∉ stretch.accepted := fun hmem =>
        Bool.false_ne_true (hzero.mpr hmem)
      rw [if_neg Bool.false_ne_true, hequals]
      constructor
      · intro hsame
        rw [hsame, if_neg haccepted]
        exact List.mem_singleton_self _
      · intro hmem
        split at hmem
        · cases hmem
        · exact (List.mem_singleton.mp hmem).symm

theorem Chain.zero_iff (h : Means worth facts code) (chain : Chain facts)
    (hreadable : chain.Readable) :
    chain.zero worth = true ↔ some code.toNat ∈ chain.stretch.accepted := by
  have hrun (links : List (Conditional facts)) : ∀ {zero : Bool} {stretch : Stretch},
      (∀ link ∈ links, link.value.isSome = true) →
        (zero = true ↔ some code.toNat ∈ stretch.accepted) →
          (links.foldl (Conditional.zero worth) zero = true ↔ some code.toNat ∈
            (links.foldl (fun stretch link => stretch.next link.value link.keeps)
              stretch).accepted) := by
    induction links with
    | nil => exact fun _ hzero => hzero
    | cons link links ih =>
      intro zero stretch hvalues hzero
      rw [List.forall_mem_cons] at hvalues
      exact ih hvalues.2 (link.zero_iff h hvalues.1 hzero)
  apply hrun _ hreadable.2
  rw [chain.opening.equals_iff h hreadable.1]
  simp [Stretch.accepted, eq_comm]

end Values

section Walk
variable {facts : Facts} {layout : Layout} {state : Walking}

theorem scalarOf_congr {other : Facts} (h : other.registers = facts.registers)
    (operand : Option Operand) : scalarOf other operand = scalarOf facts operand := by
  unfold scalarOf
  simp only [Facts.get_congr h]

def Link.reading (link : Link facts) (chained : Bool) : Compared where
  equality := .subtractive
  code := link.value
  proved := link.proved
  index := some (link.left.full, 0, 0)
  bound := link.value
  chained
  site := link.instruction.address

theorem Link.compare_eq {other : Facts} (h : other.registers = facts.registers)
    (link : Link facts) (layout : Layout) :
    compare other [.register link.left, link.operand] layout link.instruction.address =
      (some (link.reading false), false) := by
  have hwide : ¬ link.left.width < fieldWidth := Nat.not_lt.mpr link.wide
  have hcode : (link.value.map fun value => (value + asU64 0) % 2 ^ 64) = link.value := by
    cases hvalue : link.value with
    | none => rfl
    | some value =>
      have hsmall := link.ulong value hvalue
      unfold asU64
      simp only [Option.map_some, Option.some.injEq]
      omega
  unfold compare
  simp only [List.head?_cons, hwide, if_false, Facts.get_congr h, link.code, if_true,
    List.getElem?_cons_succ, List.getElem?_cons_zero, scalarOf_congr h]
  change (some (Compared.mk _ (link.value.map _) _ _ _ _ _), false) = _
  rw [hcode]
  rfl

theorem Conditional.keeps_eq (link : Conditional facts) :
    (link.forced &&& 0b0100 != 0) = link.keeps := by
  unfold keeps
  rw [show (0b0100 : Nat) = 2 ^ 2 from rfl, Nat.and_two_pow]
  cases link.forced.testBit 2 <;> rfl

theorem Conditional.chainedCompare_eq {other : Facts} (h : other.registers = facts.registers)
    (link : Conditional facts) (layout : Layout) :
    chainedCompare other link.instruction layout =
      (some (some (link.reading true), link.keeps), false) := by
  have hcompare := link.compare_eq h layout
  unfold chainedCompare Instruction.operand
  simp only [link.mnemonic, true_or, if_true, link.condition, link.operands,
    List.getElem?_cons_succ, List.getElem?_cons_zero, Option.bind_some, immediateOf, hcompare,
    link.keeps_eq]
  rfl

theorem Opening.step (h : state.facts.registers = facts.registers) (opening : Opening facts) :
    ∃ status, state.step layout opening.instruction =
      { state with
        facts := { state.facts with status }, compared := [opening.reading false]
        lost := state.justLost, forced := none, justLost := none, chain := none, ownFlags := true
        decided := decidesZero state.facts opening.instruction } := by
  refine ⟨statusAfter state.facts.status opening.instruction layout state.facts, ?_⟩
  have hcompare (status : Status) := @Link.compare_eq facts { state.facts with status } h
    opening.toLink layout
  unfold Walking.step update
  simp only [opening.effect, if_true, opening.operands, hcompare, opening.flow, opening.flags,
    Bool.false_eq_true, if_false, Bool.true_or, Bool.or_false]
  rfl

theorem Conditional.step (h : state.facts.registers = facts.registers)
    (link : Conditional facts) :
    ∃ status, state.step layout link.instruction =
      { Walking.absorb { state with facts := { state.facts with status } }
          (some (link.reading true)) (some (link.instruction.address, link.keeps)) with
        ownFlags := true, decided := none } := by
  refine ⟨statusAfter state.facts.status link.instruction layout state.facts, ?_⟩
  have hchained (status : Status) :=
    @Conditional.chainedCompare_eq facts { state.facts with status } h link layout
  have hdecided : decidesZero state.facts link.instruction = none := by
    unfold decidesZero
    rw [link.operands]
    rfl
  unfold Walking.step update
  simp only [link.effect, if_false, hchained, hdecided, link.flow, link.flags, Option.isNone_some,
    Bool.false_eq_true, if_true, Bool.true_or, Bool.or_false]

/-- Where the walk stands behind a link: flags of this block, over the registers of its start. -/
structure Walking.Linked (state : Walking) (facts : Facts) : Prop where
  registers : state.facts.registers = facts.registers
  justLost : state.justLost = none
  ownFlags : state.ownFlags = true

theorem absorb_facts (next : Option Compared) (chained : Option (Nat × Bool)) :
    (state.absorb next chained).facts = state.facts := by
  unfold Walking.absorb
  split
  · rfl
  · dsimp only
    split <;> rfl

theorem absorb_justLost (next : Option Compared) (chained : Option (Nat × Bool)) :
    (state.absorb next chained).justLost = none := by
  unfold Walking.absorb
  split
  · rfl
  · dsimp only
    split <;> rfl

theorem Walking.Linked.step (h : state.Linked facts) (link : Conditional facts) :
    (state.step layout link.instruction).Linked facts := by
  obtain ⟨status, hstep⟩ := @Conditional.step facts layout state h.registers link
  rw [hstep]
  constructor
  case registers =>
    rw [absorb_facts]
    exact h.registers
  case justLost => exact absorb_justLost _ _
  case ownFlags => rfl

/-- The walk takes a forced-clear link for dead where a reading of its chain is of its code, and
where every reading is. -/
def Walking.excludes (state : Walking) (own : Compared) : Bool :=
  own.code.isSome && (state.compared.any (fun was => was.chained && was.code == own.code) ||
    !state.compared.isEmpty &&
      state.compared.all fun was => was.code.isSome && was.code == own.code)

def Walking.readings (state : Walking) (own : Compared) (keeps : Bool) : List Compared :=
  if keeps then
    if state.compared.isEmpty then []
    else state.compared.map (fun was => { was with chained := true }) ++ [own]
  else if state.excludes own then []
  else [own]

/-- The loss a link leaves: one from before, a reading of no code that a forced-clear link takes
out, and a forced-clear link that is dead. -/
def Walking.losses (state : Walking) (own : Compared) (keeps : Bool) : Option Nat :=
  state.lost <|>
    if keeps then none
    else (state.compared.find? fun was => was.code.isNone).map Compared.site <|>
      if state.excludes own then some own.site else none

theorem Conditional.step_eq (h : state.Linked facts) (link : Conditional facts) :
    (state.step layout link.instruction).compared =
        state.readings (link.reading true) link.keeps ∧
      (state.step layout link.instruction).lost =
        state.losses (link.reading true) link.keeps ∧
      (state.step layout link.instruction).decided = none := by
  obtain ⟨status, hstep⟩ := @Conditional.step facts layout state h.registers link
  rw [hstep]
  unfold Walking.absorb Walking.readings Walking.losses Walking.excludes
  simp only [h.ownFlags, h.justLost]
  cases link.keeps with
  | true =>
    cases state.compared with
    | nil => simp
    | cons was rest => simp
  | false => simp [Link.reading]

def Walking.Fresh (state : Walking) : Prop :=
  (∃ was, state.compared = [was]) ∨ ∀ was ∈ state.compared, was.chained = true

theorem excludes_iff (h : state.Fresh) {own : Compared} (hown : own.code.isSome = true) :
    state.excludes own = true ↔ own.code ∈ state.compared.map Compared.code := by
  unfold Walking.excludes
  rw [hown, Bool.true_and, Bool.or_eq_true, List.mem_map]
  obtain ⟨was, hone⟩ | hchained := h
  · rw [hone]
    simp only [List.any_cons, List.any_nil, Bool.or_false, Bool.and_eq_true, beq_iff_eq,
      List.isEmpty_cons, Bool.not_false, Bool.true_and, List.all_cons, List.all_nil, Bool.and_true,
      List.mem_singleton, exists_eq_left]
    constructor
    · rintro (⟨-, hsame⟩ | ⟨-, hsame⟩) <;> exact hsame
    · exact fun hsame => Or.inr ⟨hsame ▸ hown, hsame⟩
  · rw [List.any_eq_true]
    constructor
    · rintro (⟨was, hwas, hsame⟩ | hevery)
      · rw [Bool.and_eq_true, beq_iff_eq] at hsame
        exact ⟨was, hwas, hsame.2⟩
      · rw [Bool.and_eq_true, List.all_eq_true] at hevery
        obtain ⟨was, hwas⟩ := List.exists_mem_of_ne_nil state.compared (by
          rintro hnil
          rw [hnil] at hevery
          cases hevery.1)
        have hsame := hevery.2 was hwas
        rw [Bool.and_eq_true, beq_iff_eq] at hsame
        exact ⟨was, hwas, hsame.2⟩
    · rintro ⟨was, hwas, hsame⟩
      refine Or.inl ⟨was, hwas, ?_⟩
      rw [hchained was hwas, Bool.true_and, beq_iff_eq]
      exact hsame

structure Walking.Names (state : Walking) (facts : Facts) (stretch : Stretch) : Prop extends
    state.Linked facts where
  codes : state.compared.map Compared.code = stretch.named
  fresh : state.Fresh

theorem Walking.Names.step {stretch : Stretch} (h : state.Names facts stretch)
    (link : Conditional facts) (hvalue : link.value.isSome = true) :
    (state.step layout link.instruction).Names facts (stretch.next link.value link.keeps) := by
  obtain ⟨hcompared, -, -⟩ := @Conditional.step_eq facts layout state h.toLinked link
  have hcodes := h.codes
  refine ⟨h.toLinked.step link, ?_, ?_⟩
  · rw [hcompared]
    unfold Walking.readings
    cases link.keeps with
    | true =>
      rw [Stretch.named_keep, ← hcodes]
      cases state.compared with
      | nil => rfl
      | cons was rest => simp [Link.reading]
    | false =>
      have hexcludes : state.excludes (link.reading true) = true ↔ link.value ∈ stretch.named := by
        rw [← hcodes]
        exact excludes_iff h.fresh hvalue
      rw [Stretch.named_clear]
      simp only [hexcludes, Bool.false_eq_true, if_false]
      split <;> rfl
  · unfold Walking.Fresh
    rw [hcompared]
    unfold Walking.readings
    refine Or.inr ?_
    intro was hwas
    split at hwas
    · split at hwas
      · cases hwas
      · rcases List.mem_append.mp hwas with hearlier | hown
        · obtain ⟨_, -, rfl⟩ := List.mem_map.mp hearlier
          rfl
        · obtain rfl := List.mem_singleton.mp hown
          rfl
    · split at hwas
      · cases hwas
      · obtain rfl := List.mem_singleton.mp hwas
        rfl

/-- What an unread operand leaves the walk owing: a site of the chain, or a reading of no code. -/
structure Walking.Owes (state : Walking) (facts : Facts) (sites : List Nat) (unread : Prop) :
    Prop extends state.Linked facts where
  readings : ∀ was ∈ state.compared, was.index.isSome = true ∧ was.site ∈ sites
  lost : ∀ site, state.lost = some site → site ∈ sites
  held : state.compared = [] → state.lost.isSome = true
  unread : unread → state.lost.isSome = true ∨ ∃ was ∈ state.compared, was.code = none

theorem isSome_losses_of_lost (h : state.lost.isSome = true) (own : Compared) (keeps : Bool) :
    (state.losses own keeps).isSome = true := by
  obtain ⟨site, hsite⟩ := Option.isSome_iff_exists.mp h
  unfold Walking.losses
  rw [hsite]
  rfl

theorem isSome_losses_of_unread (h : ∃ was ∈ state.compared, was.code = none) (own : Compared) :
    (state.losses own false).isSome = true := by
  obtain ⟨was, hwas, hcode⟩ := h
  have hfind : (state.compared.find? fun was => was.code.isNone).isSome = true := by
    rw [List.find?_isSome]
    exact ⟨was, hwas, hcode ▸ rfl⟩
  obtain ⟨found, hfound⟩ := Option.isSome_iff_exists.mp hfind
  unfold Walking.losses
  rw [hfound]
  cases state.lost <;> rfl

theorem mem_losses {sites : List Nat} (h : ∀ was ∈ state.compared, was.site ∈ sites)
    (hlost : ∀ site, state.lost = some site → site ∈ sites) {own : Compared}
    (hown : own.site ∈ sites) {keeps : Bool} {site : Nat}
    (hsite : state.losses own keeps = some site) : site ∈ sites := by
  unfold Walking.losses at hsite
  rcases (Option.orElse_eq_some _ _ _).mp hsite with hbefore | ⟨-, hsite⟩
  · exact hlost site hbefore
  cases keeps with
  | true => cases hsite
  | false =>
    rcases (Option.orElse_eq_some _ _ _).mp hsite with hunread | ⟨-, hdead⟩
    · obtain ⟨was, hwas, rfl⟩ := Option.map_eq_some_iff.mp hunread
      exact h was (List.mem_of_find?_eq_some hwas)
    · split at hdead
      · exact Option.some.inj hdead ▸ hown
      · cases hdead

theorem mem_readings {own was : Compared} {keeps : Bool} (h : was ∈ state.readings own keeps) :
    was = own ∨ ∃ earlier ∈ state.compared, was = { earlier with chained := true } := by
  unfold Walking.readings at h
  split at h
  · split at h
    · cases h
    · rcases List.mem_append.mp h with hearlier | hown
      · obtain ⟨earlier, hmem, rfl⟩ := List.mem_map.mp hearlier
        exact Or.inr ⟨earlier, hmem, rfl⟩
      · exact Or.inl (List.mem_singleton.mp hown)
  · split at h
    · cases h
    · exact Or.inl (List.mem_singleton.mp h)

theorem Walking.Owes.step {sites : List Nat} {unread : Prop}
    (h : state.Owes facts sites unread) (link : Conditional facts)
    (hsite : link.instruction.address ∈ sites) :
    (state.step layout link.instruction).Owes facts sites (unread ∨ link.value = none) := by
  obtain ⟨hcompared, hlosses, -⟩ := @Conditional.step_eq facts layout state h.toLinked link
  have hsites : ∀ was ∈ state.compared, was.site ∈ sites := fun was hwas => (h.readings was hwas).2
  constructor
  case toLinked => exact h.toLinked.step link
  case readings =>
    rw [hcompared]
    intro was hwas
    rcases mem_readings hwas with rfl | ⟨earlier, hearlier, rfl⟩
    · exact ⟨rfl, hsite⟩
    · exact h.readings earlier hearlier
  case lost =>
    rw [hlosses]
    exact fun site hlost => mem_losses hsites h.lost hsite hlost
  case held =>
    rw [hcompared, hlosses]
    unfold Walking.readings
    intro hnone
    split at hnone
    · split at hnone
      · next hempty => exact isSome_losses_of_lost (h.held (List.isEmpty_iff.mp hempty)) _ _
      · simp at hnone
    · next hclear =>
      split at hnone
      · next hexcludes =>
        unfold Walking.losses
        rw [if_neg hclear, if_pos hexcludes]
        cases state.lost with
        | some => rfl
        | none => cases state.compared.find? _ <;> rfl
      · cases hnone
  case unread =>
    rw [hcompared, hlosses]
    rintro (hunread | hvalue)
    · rcases h.unread hunread with hlost | hreading
      · exact Or.inl (isSome_losses_of_lost hlost _ _)
      · cases link.keeps with
        | false => exact Or.inl (isSome_losses_of_unread hreading _)
        | true =>
          obtain ⟨was, hwas, hcode⟩ := hreading
          refine Or.inr ⟨{ was with chained := true }, ?_, hcode⟩
          unfold Walking.readings
          rw [if_pos rfl, if_neg (by rw [List.isEmpty_iff]; exact List.ne_nil_of_mem hwas)]
          exact List.mem_append_left _ (List.mem_map_of_mem hwas)
    · by_cases hempty : state.compared = []
      · exact Or.inl (isSome_losses_of_lost (h.held hempty) _ _)
      · refine Or.inr ⟨link.reading true, ?_, hvalue⟩
        have hexcludes : state.excludes (link.reading true) = false := by
          unfold Walking.excludes
          rw [show (link.reading true).code = none from hvalue]
          rfl
        unfold Walking.readings
        cases link.keeps with
        | true =>
          rw [if_pos rfl, if_neg (by rw [List.isEmpty_iff]; exact hempty)]
          exact List.mem_append_right _ (List.mem_singleton_self _)
        | false =>
          rw [hexcludes]
          exact List.mem_singleton_self _

theorem Opening.linked (h : state.facts.registers = facts.registers) (opening : Opening facts) :
    (state.step layout opening.instruction).Linked facts ∧
      (state.step layout opening.instruction).compared = [opening.reading false] ∧
      (state.step layout opening.instruction).lost = state.justLost ∧
      (state.step layout opening.instruction).decided =
        decidesZero state.facts opening.instruction := by
  obtain ⟨status, hstep⟩ := @Opening.step facts layout state h opening
  rw [hstep]
  exact ⟨⟨h, rfl, rfl⟩, rfl, rfl, rfl⟩

theorem Opening.decidesZero_eq (opening : Opening facts) (before : Facts) :
    decidesZero before opening.instruction =
      if opening.operand = .register opening.left then some true else none := by
  unfold decidesZero
  rw [opening.operands]
  cases hoperand : opening.operand with
  | register right =>
    by_cases hname : right.name = opening.left.name
    · obtain rfl := opening.named right hoperand hname
      simp [opening.effect, opening.mnemonic]
    · have hright : right ≠ opening.left := fun hsame => hname (hsame ▸ rfl)
      simp [hright, Ne.symm hname]
  | immediate | memory | other => simp

namespace Chain
variable (chain : Chain facts)

theorem foldl_instructions (state : Walking) :
    chain.instructions.foldl (Walking.step layout) state =
      chain.links.foldl (fun state link => state.step layout link.instruction)
        (state.step layout chain.opening.instruction) := by
  unfold instructions
  rw [List.foldl_cons, List.foldl_map]

theorem names (h : state.facts.registers = facts.registers) (hreadable : chain.Readable) :
    (chain.instructions.foldl (Walking.step layout) state).Names facts chain.stretch := by
  have hrun (links : List (Conditional facts)) : ∀ {state : Walking} {stretch : Stretch},
      (∀ link ∈ links, link.value.isSome = true) → state.Names facts stretch →
        (links.foldl (fun state link => state.step layout link.instruction) state).Names facts
          (links.foldl (fun stretch link => stretch.next link.value link.keeps) stretch) := by
    induction links with
    | nil => exact fun _ hnames => hnames
    | cons link links ih =>
      intro state stretch hvalues hnames
      rw [List.forall_mem_cons] at hvalues
      exact ih hvalues.2 (hnames.step link hvalues.1)
  obtain ⟨hlinked, hcompared, -, -⟩ := @Opening.linked facts layout state h chain.opening
  rw [foldl_instructions]
  apply hrun _ hreadable.2
  refine ⟨hlinked, ?_, Or.inl ⟨_, hcompared⟩⟩
  rw [hcompared]
  rfl

theorem owes (h : state.facts.registers = facts.registers) (hlost : state.justLost = none) :
    (chain.instructions.foldl (Walking.step layout) state).Owes facts chain.sites
      (chain.opening.value = none ∨ ∃ link ∈ chain.links, link.value = none) := by
  have hrun (links : List (Conditional facts)) : ∀ {state : Walking} {unread : Prop},
      (∀ link ∈ links, link.instruction.address ∈ chain.sites) →
        state.Owes facts chain.sites unread →
          (links.foldl (fun state link => state.step layout link.instruction) state).Owes facts
            chain.sites (unread ∨ ∃ link ∈ links, link.value = none) := by
    induction links with
    | nil => simp
    | cons link links ih =>
      intro state unread hsites howes
      rw [List.forall_mem_cons] at hsites
      have hrest := ih hsites.2 (@Walking.Owes.step _ layout _ _ _ howes link hsites.1)
      rw [or_assoc] at hrest
      simp only [List.mem_cons, exists_eq_or_imp]
      exact hrest
  obtain ⟨hlinked, hcompared, hlosses, -⟩ := @Opening.linked facts layout state h chain.opening
  rw [foldl_instructions]
  apply hrun
  · intro link hlink
    apply List.mem_map_of_mem
    exact List.mem_cons_of_mem _ (List.mem_map_of_mem hlink)
  · constructor
    case toLinked => exact hlinked
    case readings =>
      rw [hcompared]
      intro was hwas
      obtain rfl := List.mem_singleton.mp hwas
      exact ⟨rfl, List.mem_cons_self⟩
    case lost =>
      rw [hlosses, hlost]
      nofun
    case held =>
      rw [hcompared]
      nofun
    case unread =>
      intro hvalue
      rw [hcompared]
      exact Or.inr ⟨_, List.mem_singleton_self _, hvalue⟩

def Itself : Prop :=
  chain.links = [] ∧ chain.opening.operand = .register chain.opening.left

theorem decided_of_itself (h : state.facts.registers = facts.registers)
    (hitself : chain.Itself) :
    (chain.instructions.foldl (Walking.step layout) state).decided = some true := by
  obtain ⟨-, -, -, hdecided⟩ := @Opening.linked facts layout state h chain.opening
  rw [foldl_instructions, hitself.1, List.foldl_nil, hdecided, chain.opening.decidesZero_eq,
    if_pos hitself.2]

theorem decided_of_not_itself (h : state.facts.registers = facts.registers)
    (hitself : ¬ chain.Itself) :
    (chain.instructions.foldl (Walking.step layout) state).decided = none := by
  have hrun (links : List (Conditional facts)) : ∀ {state : Walking}, state.Linked facts →
      state.decided = none ∨ links ≠ [] →
        (links.foldl (fun state link => state.step layout link.instruction) state).decided =
          none := by
    induction links with
    | nil =>
      rintro state - (hdecided | hlinks)
      · exact hdecided
      · exact absurd rfl hlinks
    | cons link links ih =>
      intro state hlinked _
      exact ih (hlinked.step link) (Or.inl (link.step_eq hlinked).2.2)
  obtain ⟨hlinked, -, -, hdecided⟩ := @Opening.linked facts layout state h chain.opening
  rw [foldl_instructions]
  apply hrun _ hlinked
  rw [hdecided, chain.opening.decidesZero_eq]
  by_cases hlinks : chain.links = []
  · left
    exact if_neg fun hoperand => hitself ⟨hlinks, hoperand⟩
  · exact Or.inr hlinks

theorem foldedCompare_eq (before : Facts) :
    foldedCompare before chain.last layout = (none, false) := by
  unfold foldedCompare
  simp only [chain.mnemonic.1, chain.mnemonic.2, if_false]

def found (next : Option Nat) (was : Compared) : Option Found :=
  was.code.bind fun code => (chain.lands next).map fun lands =>
    { code, lands, site := was.site, proved := was.proved }

theorem readBranch_cases (state : Walking) (next : Option Nat) (layout : Layout) :
    (readBranch state chain.last chain.target next layout).1 =
      state.compared.filterMap (chain.found next) := by
  unfold readBranch
  rw [chain.foldedCompare_eq]
  obtain hcondition | hcondition := chain.condition
  all_goals
    simp only [hcondition, List.filterMap_map]
    congr 1
    funext was
    unfold found lands
    dsimp only [Function.comp_apply]
    rw [hcondition]
    cases was.code <;> rfl

theorem readBranch_untracked (state : Walking) (next : Option Nat) (layout : Layout) :
    (readBranch state chain.last chain.target next layout).2.1 =
      (state.lost <|> state.forced).toList ++ state.compared.filterMap fun was =>
        if was.code.isNone && was.index.isSome then some was.site else none := by
  unfold readBranch
  rw [chain.foldedCompare_eq]
  obtain hcondition | hcondition := chain.condition
  all_goals
    simp only [hcondition, List.filterMap_map, Option.isNone_some, Bool.and_false,
      Bool.false_and, Bool.false_eq_true, if_false, List.append_nil]
    rfl

theorem found_code_iff (compared : List Compared) (next : Option Nat) (code : Nat) :
    (∃ found ∈ compared.filterMap (chain.found next), found.code = code) ↔
      some code ∈ compared.map Compared.code ∧ (chain.lands next).isSome = true := by
  unfold found
  simp only [List.mem_filterMap, Option.bind_eq_some_iff, Option.map_eq_some_iff, List.mem_map]
  constructor
  · rintro ⟨_, ⟨was, hwas, value, hvalue, lands, hlands, rfl⟩, rfl⟩
    rw [hlands]
    exact ⟨⟨was, hwas, hvalue⟩, rfl⟩
  · rintro ⟨⟨was, hwas, hvalue⟩, hlands⟩
    obtain ⟨lands, hlands⟩ := Option.isSome_iff_exists.mp hlands
    exact ⟨_, ⟨was, hwas, code, hvalue, lands, hlands, rfl⟩, rfl⟩

theorem found_lands {compared : List Compared} {next : Option Nat} {found : Found}
    (h : found ∈ compared.filterMap (chain.found next)) : chain.lands next = some found.lands := by
  obtain ⟨was, -, hfound⟩ := List.mem_filterMap.mp h
  unfold Chain.found at hfound
  obtain ⟨value, -, hmap⟩ := Option.bind_eq_some_iff.mp hfound
  obtain ⟨lands, hlands, rfl⟩ := Option.map_eq_some_iff.mp hmap
  exact hlands

theorem untracked_of_owes {sites : List Nat} {unread : Prop} (h : state.Owes facts sites unread)
    (hunread : unread) (next : Option Nat) :
    ∃ site ∈ sites,
      site ∈ (readBranch state chain.last chain.target next layout).2.1 := by
  rw [readBranch_untracked]
  rcases h.unread hunread with hlost | ⟨was, hwas, hcode⟩
  · obtain ⟨site, hsite⟩ := Option.isSome_iff_exists.mp hlost
    refine ⟨site, h.lost site hsite, List.mem_append_left _ ?_⟩
    rw [hsite]
    exact List.mem_singleton_self site
  · obtain ⟨hindex, hsite⟩ := h.readings was hwas
    refine ⟨was.site, hsite, List.mem_append_right _ ?_⟩
    rw [List.mem_filterMap]
    refine ⟨was, hwas, ?_⟩
    rw [hcode, hindex]
    rfl

end Chain

theorem update_lost_of_quiet {instruction : Instruction} (hquiet : instruction.writesFlags = false)
    (lost : Option Nat) : (update facts instruction layout lost).lost = lost := by
  unfold update
  simp only [noteLoss_of_no_flags hquiet, ite_self]
  split
  · rfl
  · split
    · rfl
    · split
      · rfl
      · split
        · split
          · rfl
          · split
            · rfl
            · split <;> rfl
        · rfl

/-- A call writes no flags: a loss in front of a chain is taken in by the flag write it is of. -/
theorem justLost_step (h : state.justLost = none) {instruction : Instruction}
    (hcall : isCall instruction.flow = true → instruction.writesFlags = false) :
    (state.step layout instruction).justLost = none := by
  unfold Walking.step
  rw [h]
  cases hflow : isCall instruction.flow with
  | true => exact update_lost_of_quiet (hcall hflow) none
  | false =>
    dsimp only
    rw [if_neg Bool.false_ne_true]
    split
    · exact absorb_justLost _ _
    · next hflags =>
      rw [Bool.or_eq_true, not_or, Bool.not_eq_true] at hflags
      exact update_lost_of_quiet hflags.1 none

theorem justLost_foldl {front : List Instruction} : ∀ {state : Walking}, state.justLost = none →
    (∀ instruction ∈ front, isCall instruction.flow = true → instruction.writesFlags = false) →
      (front.foldl (Walking.step layout) state).justLost = none := by
  induction front with
  | nil => exact fun h _ => h
  | cons instruction front ih =>
    intro state h hcalls
    rw [List.forall_mem_cons] at hcalls
    exact ih (justLost_step h hcalls.1) hcalls.2

namespace Chain
variable (chain : Chain facts)

/-- What the walk of a chain has to say of the codes that take the edge of equality: every one of
them and no other, where it could read the operands; and each of them, or a site, where not. -/
structure Told (worth : BitVec 32 → Operand → Nat) (lands : Option Nat) (run : Run) : Prop where
  exact : chain.Readable → ∀ code, (∃ found ∈ run.cases, found.code = code) ↔
    ∃ value : BitVec 32, chain.zero (worth value) = true ∧ value.toNat = code
  lands : ∀ found ∈ run.cases, lands = some found.lands
  bound : ¬ chain.Readable → ∀ value : BitVec 32, chain.zero (worth value) = true →
    (∃ found ∈ run.cases, found.code = value.toNat) ∨ ∃ site ∈ chain.sites, site ∈ run.untracked

def ended (lands : Option Nat) : Stretch :=
  { chain.stretch with repeated := chain.stretch.repeated || lands.isNone }

theorem stretch_readable (hreadable : chain.Readable) :
    ∀ value ∈ chain.stretch.first :: chain.stretch.rest, ∃ code : BitVec 32,
      value = some code.toNat := by
  have hvalue (link : Link facts) (h : link.value.isSome = true) :
      ∃ code : BitVec 32, link.value = some code.toNat := by
    obtain ⟨value, hvalue⟩ := Option.isSome_iff_exists.mp h
    refine ⟨BitVec.ofNat 32 value, ?_⟩
    rw [hvalue, BitVec.toNat_ofNat, Nat.mod_eq_of_lt (link.ulong value hvalue)]
  have hrun (links : List (Conditional facts)) : ∀ {stretch : Stretch},
      (∀ link ∈ links, link.value.isSome = true) →
        (∀ value ∈ stretch.first :: stretch.rest, ∃ code : BitVec 32, value = some code.toNat) →
          let after := links.foldl (fun stretch link => stretch.next link.value link.keeps) stretch
          ∀ value ∈ after.first :: after.rest, ∃ code : BitVec 32, value = some code.toNat := by
    induction links with
    | nil => exact fun _ h => h
    | cons link links ih =>
      intro stretch hvalues h
      rw [List.forall_mem_cons] at hvalues
      exact ih hvalues.2 (Stretch.forall_next link.keeps h (hvalue link.toLink hvalues.1))
  exact hrun _ hreadable.2 (List.forall_mem_singleton.mpr (hvalue _ hreadable.1))

theorem accepted_iff {worth : BitVec 32 → Operand → Nat}
    (hworth : ∀ code, Means (worth code) facts code) (hreadable : chain.Readable) (code : Nat) :
    (∃ value : BitVec 32, chain.zero (worth value) = true ∧ value.toNat = code) ↔
      some code ∈ chain.stretch.accepted := by
  constructor
  · rintro ⟨value, hzero, rfl⟩
    exact (chain.zero_iff (hworth value) hreadable).mp hzero
  · intro haccepted
    have hmem : some code ∈ chain.stretch.first :: chain.stretch.rest := by
      unfold Stretch.accepted at haccepted
      split at haccepted
      · exact List.mem_cons_of_mem _ haccepted
      · exact haccepted
    obtain ⟨value, hvalue⟩ := chain.stretch_readable hreadable _ hmem
    obtain rfl := Option.some.inj hvalue
    exact ⟨value, (chain.zero_iff (hworth value) hreadable).mpr haccepted, rfl⟩

theorem agrees_iff (hreadable : chain.Readable) (lands : Option Nat) :
    (chain.ended lands).Agrees ↔ ∀ code,
      (some code ∈ chain.stretch.named ∧ lands.isSome = true ↔
        some code ∈ chain.stretch.accepted) := by
  have hnamed (value : Option Nat) :
      value ∈ (chain.ended lands).named ↔ value ∈ chain.stretch.named ∧ lands.isSome = true := by
    unfold ended Stretch.named
    cases lands <;> simp
  have hnone : none ∉ chain.stretch.first :: chain.stretch.rest := by
    intro hmem
    obtain ⟨code, hcode⟩ := chain.stretch_readable hreadable none hmem
    cases hcode
  rw [Stretch.agrees_iff]
  constructor
  · intro h code
    rw [← hnamed]
    exact h (some code)
  · intro h value
    rw [hnamed]
    cases value with
    | some code => exact h code
    | none =>
      constructor
      · rintro ⟨hmem, -⟩
        unfold Stretch.named at hmem
        split at hmem
        · cases hmem
        · exact absurd hmem hnone
      · intro hmem
        change none ∈ chain.stretch.accepted at hmem
        unfold Stretch.accepted at hmem
        split at hmem
        · exact absurd (List.mem_cons_of_mem _ hmem) hnone
        · exact absurd hmem hnone

theorem not_itself_of_readable (hreadable : chain.Readable) : ¬ chain.Itself := by
  rintro ⟨-, hoperand⟩
  have hvalue := hreadable.1
  unfold Link.value scalarOf at hvalue
  rw [hoperand] at hvalue
  simp [chain.opening.wide, chain.opening.code] at hvalue

theorem zero_of_itself (hitself : chain.Itself) (worth : Operand → Nat) :
    chain.zero worth = true := by
  unfold zero Link.equals
  rw [hitself.1, hitself.2]
  exact beq_self_eq_true _

theorem settleOwed_equality (state : Walking) : (settleOwed state (some chain.last)).1 = [] := by
  unfold settleOwed
  obtain hcondition | hcondition := chain.condition
  all_goals
    simp only [Option.map_some, Option.bind_some, chain.flow, hcondition]
    cases owedBy state <;> rfl

theorem walkBlock_eq {front : List Instruction} {entry : Facts}
    (hfacts : (front.foldl (Walking.step layout) (.enter entry)).facts.registers =
      facts.registers)
    (next : Option Nat) (successors : List Nat) (fallThrough : Option Nat)
    (blockAt : Nat → Option Nat) (reader : Option Reader) (inImage : Nat → Bool) :
    let state := chain.instructions.foldl (Walking.step layout)
      (front.foldl (Walking.step layout) (.enter entry))
    let walk := walkBlock (front ++ chain.instructions ++ [chain.last]) next successors fallThrough
      blockAt entry layout reader inImage
    (¬ chain.Itself → walk.cases = state.compared.filterMap (chain.found next) ∧
      walk.untracked = (readBranch state chain.last chain.target next layout).2.1) ∧
    (chain.Itself → walk.cases = [] ∧ walk.untracked = []) := by
  intro state walk
  obtain ⟨hcases, huntracked, -⟩ := walkBlock_concat (front ++ chain.instructions) chain.last next
    successors fallThrough blockAt entry layout reader inImage
  rw [settleOwed_equality, List.append_nil] at huntracked
  rw [List.foldl_append] at hcases huntracked
  change walk.cases = (terminate state (settledBy state.decided (some chain.last)) _ _ _ _ _ _
    _).2.cases at hcases
  change walk.untracked = (terminate state (settledBy state.decided (some chain.last)) _ _ _ _ _ _
    _).2.untracked at huntracked
  rw [hcases, huntracked]
  unfold terminate
  simp only [chain.flow]
  constructor
  · intro hitself
    have hsettled : settledBy state.decided (some chain.last) = none := by
      rw [show state.decided = none from chain.decided_of_not_itself hfacts hitself]
      rfl
    rw [hsettled]
    exact ⟨chain.readBranch_cases state next layout, rfl⟩
  · intro hitself
    have hsettled : (settledBy state.decided (some chain.last)).isSome = true := by
      rw [show state.decided = some true from chain.decided_of_itself hfacts hitself]
      unfold settledBy
      simp only [chain.reads, chain.flow]
      obtain hcondition | hcondition := chain.condition <;> rw [hcondition] <;> rfl
    rw [if_pos hsettled]
    exact ⟨rfl, rfl⟩

end Chain

/-- A chain of conditional compares is told just when the walk and the machine agree on its last
stretch, where the operands can be read, and the chain is not a compare of a register with itself
alone, where they cannot. -/
theorem chain_told_iff {listing : List Instruction} {graph : Graph} {index : Nat} {block : Block}
    (hheld : graph.blocks.getD index { start := 0, stop := 0 } = block) {entry : Facts}
    {front : List Instruction} {layout : Layout}
    (hcalls : ∀ instruction ∈ front,
      isCall instruction.flow = true → instruction.writesFlags = false)
    (chain : Chain (front.foldl (Walking.step layout) (.enter entry)).facts)
    (haround : (listing.take block.stop).drop block.start =
      front ++ chain.instructions ++ [chain.last])
    {worth : BitVec 32 → Operand → Nat}
    (hworth : ∀ code, Means (worth code) (front.foldl (Walking.step layout) (.enter entry)).facts
      code)
    (reader : Option Reader) (inImage : Nat → Bool) :
    chain.Told worth (chain.lands (listing[block.stop]?.map Instruction.address))
        (simulate index graph listing entry layout reader inImage) ↔
      (chain.Readable →
        (chain.ended (chain.lands (listing[block.stop]?.map Instruction.address))).Agrees) ∧
      (¬ chain.Readable → ¬ chain.Itself) := by
  rw [simulate_of_block hheld, haround]
  generalize listing[block.stop]?.map Instruction.address = next
  obtain ⟨htold, hsilent⟩ := chain.walkBlock_eq rfl next block.successors
    (next.bind (graph.holder listing)) (graph.holder listing) reader inImage
  constructor
  · intro h
    constructor
    · intro hreadable
      have hcases := (htold (chain.not_itself_of_readable hreadable)).1
      rw [chain.agrees_iff hreadable]
      intro code
      rw [← chain.accepted_iff hworth hreadable, ← h.exact hreadable, hcases,
        chain.found_code_iff, (chain.names rfl hreadable).codes]
    · intro hunread hitself
      obtain ⟨hcases, huntracked⟩ := hsilent hitself
      have hbound := h.bound hunread 0 (chain.zero_of_itself hitself _)
      rw [hcases, huntracked] at hbound
      simp at hbound
  · rintro ⟨hagrees, hitself⟩
    have hnot : ¬ chain.Itself := by
      by_cases hreadable : chain.Readable
      · exact chain.not_itself_of_readable hreadable
      · exact hitself hreadable
    obtain ⟨hcases, huntracked⟩ := htold hnot
    constructor
    case exact =>
      intro hreadable code
      rw [chain.accepted_iff hworth hreadable, hcases, chain.found_code_iff,
        (chain.names rfl hreadable).codes]
      exact (chain.agrees_iff hreadable _).mp (hagrees hreadable) code
    case lands =>
      rw [hcases]
      exact fun found hfound => chain.found_lands hfound
    case bound =>
      intro hunread _ _
      right
      rw [huntracked]
      have howes := @Chain.owes _ layout _ chain rfl (justLost_foldl rfl hcalls)
      apply chain.untracked_of_owes howes
      by_contra hnone
      rw [not_or, not_exists] at hnone
      refine hunread ⟨Option.isSome_iff_ne_none.mpr hnone.1, ?_⟩
      exact fun link hlink => Option.isSome_iff_ne_none.mpr fun hvalue =>
        hnone.2 link ⟨hlink, hvalue⟩

end Walk

section Runs

def codeInX9 : Facts where
  registers := [("x9", .code 0 0 true), ("x11", .literal 0x222003), ("x10", .literal 0x222007)]

def w9 : Register := ⟨"w9", "x9", fieldWidth⟩

def constant (first : Bool) : Register :=
  if first then ⟨"w11", "x11", fieldWidth⟩ else ⟨"w10", "x10", fieldWidth⟩

def worthOf (code : BitVec 32) : Operand → Nat
  | .immediate value => value
  | .register register =>
    if register.full = "x9" then code.toNat
    else if register.full = "x11" then 0x222003
    else if register.full = "x10" then 0x222007
    else 0
  | _ => 0

theorem get_codeInX9 (full : String) :
    codeInX9.get full =
      if full = "x9" then some (.code 0 0 true)
      else if full = "x11" then some (.literal 0x222003)
      else if full = "x10" then some (.literal 0x222007)
      else none := by
  unfold Facts.get codeInX9
  simp only [List.lookup_cons, List.lookup_nil]
  by_cases hx9 : full = "x9"
  · subst hx9
    rfl
  by_cases hx11 : full = "x11"
  · subst hx11
    rfl
  by_cases hx10 : full = "x10"
  · subst hx10
    rfl
  simp [beq_eq_false_iff_ne.mpr hx9, beq_eq_false_iff_ne.mpr hx11, beq_eq_false_iff_ne.mpr hx10,
    hx9, hx11, hx10]

theorem worthOf_means (code : BitVec 32) : Means (worthOf code) codeInX9 code where
  code register proved _ hget := by
    rw [get_codeInX9] at hget
    split_ifs at hget with hx9 hx11 hx10
    · exact if_pos hx9
    · cases hget
    · cases hget
  scalar operand value hscalar := by
    cases operand with
    | immediate held => exact Option.some.inj hscalar
    | register register =>
      unfold scalarOf at hscalar
      simp only [get_codeInX9] at hscalar
      unfold worthOf
      split_ifs at hscalar <;> simp_all
    | memory | other => cases hscalar

def openingW9 (address : Nat) : Opening codeInX9 where
  instruction :=
    { address, mnemonic := "cmp", effect := .compare, writesFlags := true
      operands := [.register w9, .register (constant true)], reads := [w9, constant true] }
  left := w9
  operand := .register (constant true)
  proved := true
  wide := Nat.le_refl _
  code := by decide +kernel
  ulong := by decide +kernel
  flags := rfl
  flow := rfl
  operands := rfl
  effect := rfl
  mnemonic := rfl
  named := by
    rintro right hright
    obtain rfl := Operand.register.inj hright
    decide

/-- `ccmp` of `w9` with a constant, on `ne`. -/
def linkW9 (address : Nat) (first : Bool) (forced : Nat) : Conditional codeInX9 where
  instruction :=
    { address, mnemonic := "ccmp", writesFlags := true, condition := some .notEqual
      operands := [.register w9, .register (constant first), .immediate forced]
      reads := [w9, constant first] }
  left := w9
  operand := .register (constant first)
  forced
  proved := true
  wide := Nat.le_refl _
  code := by decide +kernel
  ulong := by cases first <;> decide +kernel
  flags := rfl
  flow := rfl
  operands := rfl
  effect := nofun
  mnemonic := rfl
  condition := rfl

def chainW9 (links : List (Conditional codeInX9)) : Chain codeInX9 where
  opening := openingW9 0x140001000
  links
  last :=
    { address := 0x140001100, mnemonic := "b", flow := .branch (some 0x140002000)
      condition := some .equal }
  target := some 0x140002000
  flow := rfl
  condition := Or.inl rfl
  mnemonic := by decide
  reads := rfl

def walkedW9 (chain : Chain codeInX9) : Run :=
  let listing := chain.instructions ++ [chain.last]
  simulate 0 (graph listing) listing codeInX9 .arm64 none fun _ => false

/-- `cmp w9, w11` and `ccmp w9, w10, #4, ne`: either constant. -/
def either : Chain codeInX9 := chainW9 [linkW9 0x140001004 false 4]

/-- Behind the compare of `w11`, `ccmp w9, w11, #0, ne`, `ccmp w9, w10, #4, ne` and
`ccmp w9, w10, #0, ne`: no code at all. -/
def neither : Chain codeInX9 :=
  chainW9 [linkW9 0x140001004 true 0, linkW9 0x140001008 false 4, linkW9 0x14000100c false 0]

theorem chain_told_iff_either :
    either.Told worthOf (some 0x140002000) (walkedW9 either) := by
  have hblock : (graph (either.instructions ++ [either.last])).blocks.getD 0
      { start := 0, stop := 0 } = ⟨0, 3, []⟩ := by decide +kernel
  have hreadable : either.Readable := ⟨by decide +kernel, by decide +kernel⟩
  have hagrees : (either.ended (some 0x140002000)).Agrees := by decide +kernel
  have htold := @chain_told_iff (either.instructions ++ [either.last]) _ _ _ hblock codeInX9 []
    .arm64 (fun _ h => absurd h List.not_mem_nil) either rfl worthOf worthOf_means none
    fun _ => false
  exact htold.mpr ⟨fun _ => hagrees, fun hunread => absurd hreadable hunread⟩

/-- The walk forgets the forced-set link behind a dead one, and takes its code for the next. -/
theorem chain_invents : ¬ neither.Told worthOf (some 0x140002000) (walkedW9 neither) := by
  intro h
  have hreadable : neither.Readable := ⟨by decide +kernel, by decide +kernel⟩
  have hfound : ∃ found ∈ (walkedW9 neither).cases, found.code = 0x222007 := by decide +kernel
  obtain ⟨value, hzero, hvalue⟩ := (h.exact hreadable 0x222007).mp hfound
  obtain rfl : value = 0x222007 := BitVec.eq_of_toNat_eq hvalue
  revert hzero
  decide +kernel

end Runs
end WindbgMcp.Ioctl
