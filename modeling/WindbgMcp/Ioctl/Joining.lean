import Mathlib.Data.Finset.Lattice.Basic
import Mathlib.Data.Int.Interval
import Mathlib.Data.Set.Finite.List
import Mathlib.Order.WithBot
import Mathlib.Order.Lattice
import WindbgMcp.Ioctl.Map
import WindbgMcp.Library.Agreement
import WindbgMcp.Library.StableSort

/-! The facts as a lattice.  Joining keeps what both paths say about registers, bounds and
statuses and what either of them made of compares and doubt; only the order the pending compares
are listed in is not a matter of what was joined, where two of them share a site and a code. -/
namespace WindbgMcp.Ioctl
open WindbgMcp.Library
open Facts (pendingBefore)

/-- What facts say, apart from how they are held: the registers and the bound the paths agree on,
the compares and the first doubt any of them made, and whether a status stands on all. -/
abbrev Known := (String → Agreed Value) × Agreed Bound × Finset Compared × (WithTop Nat)ᵒᵈ ×
  Boolᵒᵈ × Boolᵒᵈ

def doubt : Option Nat → WithTop Nat
  | some address => address
  | none => ⊤

def Facts.known (facts : Facts) : Known :=
  (fun register => .ofOption (facts.get register), .ofOption facts.bound, facts.pending.toFinset,
    .toDual (doubt facts.lost), .toDual facts.status.returned, .toDual facts.status.irp)

/-- Facts as they can be held: a register has one value, and a compare is pending once. -/
structure DistinctFacts where
  facts : Facts
  registers : (facts.registers.map Prod.fst).Nodup
  pending : facts.pending.Nodup

/-- The same facts: every register, and the pending compares in the order they are listed. -/
structure Same (facts other : Facts) : Prop where
  registers : ∀ register, facts.get register = other.get register
  bound : facts.bound = other.bound
  pending : facts.pending = other.pending
  lost : facts.lost = other.lost
  status : facts.status = other.status

def Facts.listed (facts : Facts) : Facts :=
  { facts with
    pending := facts.pending.insertionSort
      fun first second => pendingBefore first second = true }

theorem doubt_injective : Function.Injective doubt := by
  intro first second h
  cases first with
  | none =>
    cases second with
    | none => rfl
    | some _ => cases h
  | some _ =>
    cases second with
    | none => cases h
    | some _ => exact congrArg some (WithTop.coe_inj.mp h)

theorem known_eq_iff {facts other : Facts} : facts.known = other.known ↔
    (∀ register, facts.get register = other.get register) ∧ facts.bound = other.bound ∧
      facts.pending.toFinset = other.pending.toFinset ∧ facts.lost = other.lost ∧
        facts.status = other.status := by
  have hstatus : facts.status = other.status ↔
      facts.status.returned = other.status.returned ∧ facts.status.irp = other.status.irp := by
    cases facts.status
    cases other.status
    exact Status.mk.injEq .. ▸ Iff.rfl
  unfold Facts.known
  rw [hstatus, Prod.mk.injEq, Prod.mk.injEq, Prod.mk.injEq, Prod.mk.injEq, Prod.mk.injEq,
    funext_iff, Agreed.ofOption_inj, OrderDual.toDual_inj, doubt_injective.eq_iff,
    OrderDual.toDual_inj, OrderDual.toDual_inj]
  simp only [Agreed.ofOption_inj]

theorem same_iff {facts other : Facts} :
    Same facts other ↔ facts.known = other.known ∧ facts.pending = other.pending := by
  rw [known_eq_iff]
  constructor
  · intro h
    exact ⟨⟨h.registers, h.bound, congrArg _ h.pending, h.lost, h.status⟩, h.pending⟩
  · rintro ⟨⟨registers, bound, -, lost, status⟩, pending⟩
    exact ⟨registers, bound, pending, lost, status⟩

section Pending

instance : Std.Total fun first second : Compared => pendingBefore first second = true where
  total first second := by
    rcases first with ⟨_, code, _, _, _, _, site⟩
    rcases second with ⟨_, other, _, _, _, _, place⟩
    rcases Nat.lt_trichotomy site place with hlt | rfl | hlt
    · exact Or.inl (by simp [pendingBefore, hlt])
    · cases code <;> cases other <;> simp [pendingBefore]
      exact Nat.le_total _ _
    · exact Or.inr (by simp [pendingBefore, hlt])

instance : IsTrans Compared fun first second => pendingBefore first second = true where
  trans first second third := by
    rcases first with ⟨_, code, _, _, _, _, site⟩
    rcases second with ⟨_, other, _, _, _, _, place⟩
    rcases third with ⟨_, last, _, _, _, _, spot⟩
    cases code <;> cases other <;> cases last <;> simp [pendingBefore] <;> omega

def alike (was : Compared) (pending : List Compared) : List Compared :=
  pending.filter fun other => decide (other.site = was.site ∧ other.code = was.code)

theorem ties_pendingBefore (was : Compared) (pending : List Compared) :
    ties (fun first second : Compared => pendingBefore first second = true) was pending =
      alike was pending := by
  unfold ties alike
  apply List.filter_congr
  intro other _
  rw [decide_eq_decide]
  rcases was with ⟨_, code, _, _, _, _, site⟩
  rcases other with ⟨_, other, _, _, _, _, place⟩
  cases code <;> cases other <;> simp [pendingBefore] <;> omega

end Pending

theorem lookup_eq_some_iff_mem {α β : Type*} [DecidableEq α] {entries : List (α × β)}
    (hkeys : (entries.map Prod.fst).Nodup) {key : α} {value : β} :
    entries.lookup key = some value ↔ (key, value) ∈ entries := by
  induction entries with
  | nil => simp
  | cons entry entries ih =>
    obtain ⟨hnew, hrest⟩ := List.nodup_cons.mp hkeys
    rw [List.lookup_cons, List.mem_cons, Prod.ext_iff]
    cases hkey : key == entry.1 with
    | true =>
      obtain rfl := beq_iff_eq.mp hkey
      have hgone : (entry.1, value) ∉ entries :=
        fun h => hnew (List.mem_map.mpr ⟨_, h, rfl⟩)
      simp only [hgone, or_false, true_and, Option.some.injEq, eq_comm]
    | false =>
      have hne : key ≠ entry.1 := beq_eq_false_iff_ne.mp hkey
      simp only [hne, false_and, false_or, ih hrest]

namespace DistinctFacts

theorem get_eq_some_iff {held : DistinctFacts} {register : String} {value : Value} :
    held.facts.get register = some value ↔ (register, value) ∈ held.facts.registers :=
  lookup_eq_some_iff_mem held.registers

theorem get_join (held other : DistinctFacts) (register : String) :
    (held.facts.join other.facts).1.get register =
      if held.facts.get register = other.facts.get register then held.facts.get register
      else none := by
  have hkeys : ((held.facts.join other.facts).1.registers.map Prod.fst).Nodup :=
    (List.filter_sublist.map Prod.fst).nodup held.registers
  ext value
  rw [Facts.get, lookup_eq_some_iff_mem hkeys]
  change (register, value) ∈ List.filter _ _ ↔ _
  rw [List.mem_filter, ← get_eq_some_iff, beq_iff_eq]
  split
  · next hagree => rw [← hagree, and_self]
  · next hdiffer =>
    constructor
    · rintro ⟨hours, htheirs⟩
      exact absurd (hours.trans htheirs.symm) hdiffer
    · nofun

theorem pending_join (held other : DistinctFacts) :
    (held.facts.join other.facts).1.pending =
      (extend held.facts.pending other.facts.pending).insertionSort
        fun first second => pendingBefore first second = true := by
  rw [← foldl_push other.pending]
  rfl

def join (held other : DistinctFacts) : DistinctFacts where
  facts := (held.facts.join other.facts).1
  registers := (List.filter_sublist.map Prod.fst).nodup held.registers
  pending := by
    rw [pending_join]
    exact (List.perm_insertionSort _ _).nodup_iff.mpr (Nodup.extend held.pending other.pending)

def moved (held other : DistinctFacts) : Bool := (held.facts.join other.facts).2

theorem mem_pending_join {held other : DistinctFacts} {was : Compared} :
    was ∈ (held.join other).facts.pending ↔
      was ∈ held.facts.pending ∨ was ∈ other.facts.pending := by
  change was ∈ (held.facts.join other.facts).1.pending ↔ _
  rw [pending_join, List.mem_insertionSort, mem_extend]

theorem doubt_join (facts other : Facts) :
    doubt (facts.join other).1.lost = min (doubt facts.lost) (doubt other.lost) := by
  unfold Facts.join
  cases facts.lost with
  | none =>
    cases other.lost with
    | none => rfl
    | some theirs => exact (min_eq_right le_top).symm
  | some ours =>
    cases other.lost with
    | none => exact (min_eq_left le_top).symm
    | some theirs => exact WithTop.coe_min ours theirs

theorem known_join (held other : DistinctFacts) :
    (held.join other).facts.known = held.facts.known ⊔ other.facts.known := by
  apply Prod.ext
  · funext register
    change Agreed.ofOption ((held.facts.join other.facts).1.get register) = _
    rw [get_join]
    exact (Agreed.ofOption_sup _ _).symm
  apply Prod.ext
  · exact (Agreed.ofOption_sup _ _).symm
  apply Prod.ext
  · ext was
    change was ∈ List.toFinset _ ↔ was ∈ List.toFinset _ ∪ List.toFinset _
    rw [Finset.mem_union, List.mem_toFinset, List.mem_toFinset, List.mem_toFinset,
      mem_pending_join]
  apply Prod.ext
  · exact congrArg OrderDual.toDual (doubt_join held.facts other.facts)
  · rfl

theorem registers_kept (held other : DistinctFacts) :
    (held.join other).facts.registers.length = held.facts.registers.length ↔
      ∀ register, (held.join other).facts.get register = held.facts.get register := by
  constructor
  · intro h register
    have hsame : (held.join other).facts.registers = held.facts.registers :=
      List.filter_sublist.eq_of_length h
    unfold Facts.get
    rw [hsame]
  · intro h
    apply congrArg List.length
    apply List.filter_eq_self.mpr
    intro entry hentry
    have hget := h entry.1
    change (held.facts.join other.facts).1.get entry.1 = _ at hget
    rw [get_join, get_eq_some_iff.mpr hentry] at hget
    split at hget
    · next hagree => rw [← hagree, beq_self_eq_true]
    · cases hget

theorem pending_kept (held other : DistinctFacts) :
    (other.facts.pending.foldl
      (fun pending was => if was ∈ pending then pending else pending ++ [was])
      held.facts.pending).length = held.facts.pending.length ↔
      (held.join other).facts.pending.toFinset = held.facts.pending.toFinset := by
  rw [foldl_push other.pending, extend, List.length_append]
  constructor
  · intro h
    have hnone : fresh held.facts.pending other.facts.pending = [] :=
      List.eq_nil_of_length_eq_zero (by omega)
    ext was
    rw [List.mem_toFinset, List.mem_toFinset, mem_pending_join, ← mem_extend, extend, hnone,
      List.append_nil]
  · intro h
    have hnone : fresh held.facts.pending other.facts.pending = [] := by
      apply fresh_eq_nil
      intro was hwas
      rw [← List.mem_toFinset, ← h, List.mem_toFinset, mem_pending_join]
      exact Or.inr hwas
    rw [hnone, List.length_nil, Nat.add_zero]

theorem moved_iff (held other : DistinctFacts) :
    held.moved other = true ↔ (held.join other).facts.known ≠ held.facts.known := by
  rw [← Bool.not_eq_false, not_iff_not, known_eq_iff, ← registers_kept, ← pending_kept]
  have hbound : (held.facts.bound != other.facts.bound && held.facts.bound.isSome) = false ↔
      (held.join other).facts.bound = held.facts.bound := by
    change _ ↔ (if held.facts.bound = other.facts.bound then held.facts.bound else none) = _
    cases held.facts.bound with
    | none => simp
    | some bound => by_cases h : some bound = other.facts.bound <;> simp [h]
  rw [← hbound]
  unfold moved Facts.join
  dsimp only
  simp only [Bool.or_eq_false_iff, bne_eq_false_iff_eq, and_assoc]
  rfl

theorem alike_extend (was : Compared) (pending other : List Compared) :
    alike was (extend pending other) = extend (alike was pending) (alike was other) :=
  filter_extend _ _ _

theorem alike_join (held other : DistinctFacts) (was : Compared) :
    alike was (held.join other).facts.pending =
      extend (alike was held.facts.pending) (alike was other.facts.pending) := by
  change alike was (held.facts.join other.facts).1.pending = _
  rw [pending_join, ← ties_pendingBefore, ties_insertionSort, ties_pendingBefore, alike_extend]

theorem sorted_join (held other : DistinctFacts) :
    (held.join other).facts.pending.Pairwise
      fun first second => pendingBefore first second = true := by
  change (held.facts.join other.facts).1.pending.Pairwise _
  rw [pending_join]
  exact List.pairwise_insertionSort _ _

end DistinctFacts

theorem pending_ext {pending other : List Compared}
    (h : pending.Pairwise fun first second => pendingBefore first second = true)
    (hother : other.Pairwise fun first second => pendingBefore first second = true)
    (halike : ∀ was, alike was pending = alike was other) : pending = other := by
  apply eq_of_ties h hother
  intro was
  rw [ties_pendingBefore, ties_pendingBefore, halike]

def AlignedPending (pending other : List Compared) : Prop :=
  ∀ was, Aligned (alike was pending) (alike was other)

/-- The laws of the join, at any three facts. -/
structure JoinLaws (a b c : DistinctFacts) : Prop where
  idempotent : Same (a.join a).facts a.facts.listed ∧ a.moved a = false
  commutative : Same (a.join b).facts (b.join a).facts
  associative : Same ((a.join b).join c).facts (a.join (b.join c)).facts
  reported : a.moved b = true ↔ (a.join b).facts.known ≠ a.facts.known
  registers : ∀ register value, (a.join b).facts.get register = some value →
    a.facts.get register = some value
  bound : ∀ bound, (a.join b).facts.bound = some bound → a.facts.bound = some bound
  returned : (a.join b).facts.status.returned = true → a.facts.status.returned = true
  irp : (a.join b).facts.status.irp = true → a.facts.status.irp = true
  pending : a.facts.pending ⊆ (a.join b).facts.pending
  lost : ∀ address, a.facts.lost = some address →
    ∃ first, first ≤ address ∧ (a.join b).facts.lost = some first

namespace DistinctFacts

theorem join_self (held : DistinctFacts) : Same (held.join held).facts held.facts.listed := by
  rw [same_iff]
  constructor
  · rw [known_join, sup_idem, known_eq_iff]
    refine ⟨fun _ => rfl, rfl, ?_, rfl, rfl⟩
    ext was
    simp [Facts.listed]
  · change (held.facts.join held.facts).1.pending = _
    rw [pending_join, extend_of_subset (List.Subset.refl _)]
    rfl

theorem join_comm_iff (held other : DistinctFacts) :
    Same (held.join other).facts (other.join held).facts ↔
      AlignedPending held.facts.pending other.facts.pending := by
  have halike (was : Compared) :
      alike was (held.join other).facts.pending = alike was (other.join held).facts.pending ↔
        Aligned (alike was held.facts.pending) (alike was other.facts.pending) := by
    rw [alike_join, alike_join]
    exact extend_comm_iff (held.pending.filter _) (other.pending.filter _)
  rw [same_iff, known_join, known_join, sup_comm]
  constructor
  · rintro ⟨-, hpending⟩ was
    rw [← halike, hpending]
  · intro haligned
    refine ⟨rfl, pending_ext (sorted_join _ _) (sorted_join _ _) fun was => ?_⟩
    exact (halike was).mpr (haligned was)

theorem join_assoc (a b c : DistinctFacts) :
    Same ((a.join b).join c).facts (a.join (b.join c)).facts := by
  rw [same_iff]
  constructor
  · rw [known_join, known_join, known_join, known_join, sup_assoc]
  · apply pending_ext (sorted_join _ _) (sorted_join _ _)
    intro was
    rw [alike_join, alike_join, alike_join, alike_join, extend_assoc]

theorem join_laws_iff (a b c : DistinctFacts) :
    JoinLaws a b c ↔ AlignedPending a.facts.pending b.facts.pending := by
  rw [← join_comm_iff]
  refine ⟨fun h => h.commutative, fun hcomm => ?_⟩
  constructor
  case idempotent =>
    refine ⟨join_self a, ?_⟩
    rw [← Bool.not_eq_true, moved_iff, known_join, sup_idem]
    exact not_not_intro rfl
  case commutative => exact hcomm
  case associative => exact join_assoc a b c
  case reported => exact moved_iff a b
  case registers =>
    intro register value hjoined
    change (a.facts.join b.facts).1.get register = some value at hjoined
    rw [get_join] at hjoined
    split at hjoined
    · exact hjoined
    · cases hjoined
  case bound =>
    intro bound hjoined
    change (if a.facts.bound = b.facts.bound then a.facts.bound else none) = some bound at hjoined
    split at hjoined
    · exact hjoined
    · cases hjoined
  case returned => exact fun h => (Bool.and_eq_true_iff.mp h).1
  case irp => exact fun h => (Bool.and_eq_true_iff.mp h).1
  case pending => exact fun was hwas => mem_pending_join.mpr (Or.inl hwas)
  case lost =>
    intro address hlost
    have hmin := doubt_join a.facts b.facts
    rw [hlost] at hmin
    cases hjoined : (a.facts.join b.facts).1.lost with
    | none =>
      rw [hjoined] at hmin
      exact absurd hmin.symm (ne_of_lt (lt_of_le_of_lt (min_le_left _ _) (WithTop.coe_lt_top _)))
    | some first =>
      rw [hjoined] at hmin
      refine ⟨first, ?_, hjoined⟩
      exact WithTop.coe_le_coe.mp (hmin.trans_le (min_le_left _ _))

def arrive (state : Option DistinctFacts) (edge : DistinctFacts) : Option DistinctFacts :=
  match state with
  | some held => some (held.join edge)
  | none => some edge

def pendingOf (state : Option DistinctFacts) : List Compared :=
  (state.map fun held => held.facts.pending).getD []

def unseen (state : Option DistinctFacts) (edge : DistinctFacts) : List Compared :=
  fresh (pendingOf state) edge.facts.pending

theorem arrive_isSome (state : Option DistinctFacts) (edge : DistinctFacts) :
    ∃ held, arrive state edge = some held := by
  cases state with
  | none => exact ⟨_, rfl⟩
  | some held => exact ⟨_, rfl⟩

theorem alike_arrive {state : Option DistinctFacts} {edge held : DistinctFacts}
    (h : arrive state edge = some held) (was : Compared) :
    alike was held.facts.pending =
      extend (alike was (pendingOf state)) (alike was edge.facts.pending) := by
  cases state with
  | none =>
    obtain rfl := Option.some.inj h
    exact (nil_fresh _).symm
  | some held =>
    obtain rfl := Option.some.inj h
    exact alike_join held edge was

theorem known_arrive {state : Option DistinctFacts} {edge held : DistinctFacts}
    (h : arrive state edge = some held) (known : Known) :
    held.facts.known ≤ known ↔
      (∀ held ∈ state, held.facts.known ≤ known) ∧ edge.facts.known ≤ known := by
  cases state with
  | none =>
    obtain rfl := Option.some.inj h
    simp
  | some held =>
    obtain rfl := Option.some.inj h
    rw [known_join, sup_le_iff]
    simp

theorem alike_arrivals (was : Compared) {edges : List DistinctFacts} {held : DistinctFacts} :
    ∀ {state : Option DistinctFacts}, edges.foldl arrive state = some held →
      alike was held.facts.pending = edges.foldl
        (fun pending edge => extend pending (alike was edge.facts.pending))
        (alike was (pendingOf state)) := by
  induction edges with
  | nil =>
    intro state h
    rw [List.foldl_nil] at h ⊢
    rw [h]
    rfl
  | cons edge edges ih =>
    intro state h
    obtain ⟨first, hfirst⟩ := arrive_isSome state edge
    rw [List.foldl_cons, hfirst] at h
    rw [List.foldl_cons, ih h, ← alike_arrive hfirst]
    rfl

theorem known_arrivals (known : Known) {edges : List DistinctFacts} {held : DistinctFacts} :
    ∀ {state : Option DistinctFacts}, edges.foldl arrive state = some held →
      (held.facts.known ≤ known ↔ (∀ held ∈ state, held.facts.known ≤ known) ∧
        ∀ edge ∈ edges, edge.facts.known ≤ known) := by
  induction edges with
  | nil =>
    intro state h
    rw [List.foldl_nil] at h
    simp [h]
  | cons edge edges ih =>
    intro state h
    obtain ⟨first, hfirst⟩ := arrive_isSome state edge
    rw [List.foldl_cons, hfirst] at h
    have hstate := known_arrive hfirst known
    rw [ih h, List.forall_mem_cons, ← and_assoc, ← hstate]
    simp

theorem arrivals_isSome {edges : List DistinctFacts} (h : edges ≠ [])
    (state : Option DistinctFacts) : ∃ held, edges.foldl arrive state = some held := by
  obtain ⟨first, last, rfl⟩ := (List.eq_nil_or_concat' edges).resolve_left h
  rw [List.foldl_append]
  exact arrive_isSome _ _

theorem sorted_arrivals {state : Option DistinctFacts} {edges : List DistinctFacts}
    {held : DistinctFacts} (hseveral : 2 ≤ edges.length)
    (h : edges.foldl arrive state = some held) :
    held.facts.pending.Pairwise fun first second => pendingBefore first second = true := by
  have hne : edges ≠ [] := by
    rintro rfl
    cases hseveral
  obtain ⟨first, last, rfl⟩ := (List.eq_nil_or_concat' edges).resolve_left hne
  have hfirst : first ≠ [] := by
    rintro rfl
    exact Nat.not_succ_le_self 1 hseveral
  obtain ⟨before, hbefore⟩ := arrivals_isSome hfirst state
  rw [List.foldl_append, hbefore] at h
  obtain rfl := Option.some.inj h
  exact sorted_join before last

theorem alike_unseen (was : Compared) (state : Option DistinctFacts) (edge : DistinctFacts) :
    alike was (unseen state edge) =
      fresh (alike was (pendingOf state)) (alike was edge.facts.pending) :=
  filter_fresh _ _ _

/-- The facts do not depend on the order the edges came in just when any two edges bring what is
not pending yet in one order. -/
theorem arrivals_perm_iff (state : Option DistinctFacts) (edges : List DistinctFacts) :
    (∀ other : List DistinctFacts, other.Perm edges →
      Option.Rel (fun held other => Same held.facts other.facts)
        (other.foldl arrive state) (edges.foldl arrive state)) ↔
      ∀ edge ∈ edges, ∀ other ∈ edges,
        AlignedPending (unseen state edge) (unseen state other) := by
  have hlists (was : Compared) :=
    foldl_extend_perm_iff (fun edge : DistinctFacts => alike was edge.facts.pending)
      (fun edge (_ : edge ∈ edges) => edge.pending.filter _) (alike was (pendingOf state))
  simp only [← alike_unseen] at hlists
  constructor
  · intro h edge hedge other hother was
    apply (hlists was).mp _ edge hedge other hother
    intro turned hperm
    have hne : edges ≠ [] := List.ne_nil_of_mem hedge
    obtain ⟨held, hheld⟩ := arrivals_isSome hne state
    have hturned : turned ≠ [] := fun hnil => hne (List.perm_nil.mp (hnil ▸ hperm.symm))
    obtain ⟨found, hfound⟩ := arrivals_isSome hturned state
    have hsame := h turned hperm
    rw [hfound, hheld] at hsame
    cases hsame with
    | some hsame => rw [← alike_arrivals was hfound, ← alike_arrivals was hheld, hsame.pending]
  · intro haligned other hperm
    by_cases hseveral : 2 ≤ edges.length
    · have hne : edges ≠ [] := by
        rintro rfl
        cases hseveral
      obtain ⟨held, hheld⟩ := arrivals_isSome hne state
      have hother : other ≠ [] := fun hnil => hne (List.perm_nil.mp (hnil ▸ hperm.symm))
      obtain ⟨found, hfound⟩ := arrivals_isSome hother state
      rw [hfound, hheld]
      apply Option.Rel.some
      rw [same_iff]
      constructor
      · apply eq_of_forall_ge_iff
        intro known
        rw [known_arrivals known hfound, known_arrivals known hheld]
        simp only [hperm.mem_iff]
      · apply pending_ext (sorted_arrivals (hperm.length_eq ▸ hseveral) hfound)
          (sorted_arrivals hseveral hheld)
        intro was
        rw [alike_arrivals was hfound, alike_arrivals was hheld]
        exact (hlists was).mpr (fun edge hedge other hother =>
          haligned edge hedge other hother was) other hperm
    · -- one edge, or none: there is but one order
      have hone : other = edges := by
        cases edges with
        | nil => exact List.perm_nil.mp hperm
        | cons edge rest =>
          cases rest with
          | nil => exact List.perm_singleton.mp hperm
          | cons _ _ => exact absurd (Nat.le_add_left 2 _) hseveral
      rw [hone]
      cases edges.foldl arrive state with
      | none => exact Option.Rel.none
      | some held => exact Option.Rel.some (same_iff.mpr ⟨rfl, rfl⟩)

def along (start : DistinctFacts) (others : ℕ → DistinctFacts) : ℕ → DistinctFacts
  | 0 => start
  | n + 1 => (along start others n).join (others n)

def room (compares : Finset Compared) (held : DistinctFacts) : Nat :=
  held.facts.registers.length + held.facts.bound.isSome.toNat + held.facts.status.returned.toNat +
    held.facts.status.irp.toNat + (compares \ held.facts.pending.toFinset).card

section Room
variable {compares : Finset Compared} {held other : DistinctFacts}

theorem registers_le : (held.join other).facts.registers.length ≤ held.facts.registers.length :=
  List.filter_sublist.length_le

theorem bound_le :
    (held.join other).facts.bound.isSome.toNat ≤ held.facts.bound.isSome.toNat := by
  change (if held.facts.bound = other.facts.bound then held.facts.bound
    else none).isSome.toNat ≤ _
  split
  · exact Nat.le_refl _
  · exact Nat.zero_le _

theorem bound_same (h : (held.join other).facts.bound.isSome.toNat =
    held.facts.bound.isSome.toNat) : (held.join other).facts.bound = held.facts.bound := by
  change (if held.facts.bound = other.facts.bound then held.facts.bound
    else none).isSome.toNat = _ at h
  change (if held.facts.bound = other.facts.bound then held.facts.bound else none) = _
  split at h
  · next hagree => rw [if_pos hagree]
  · next hdiffer =>
    rw [if_neg hdiffer]
    cases hheld : held.facts.bound with
    | none => rfl
    | some bound =>
      rw [hheld] at h
      cases h

theorem status_le :
    (held.join other).facts.status.returned.toNat ≤ held.facts.status.returned.toNat ∧
      (held.join other).facts.status.irp.toNat ≤ held.facts.status.irp.toNat :=
  ⟨Bool.toNat_le_toNat (Bool.and_le_left _ _), Bool.toNat_le_toNat (Bool.and_le_left _ _)⟩

theorem status_same
    (hreturned : (held.join other).facts.status.returned.toNat =
      held.facts.status.returned.toNat)
    (hirp : (held.join other).facts.status.irp.toNat = held.facts.status.irp.toNat) :
    (held.join other).facts.status = held.facts.status := by
  have hsame {a b : Bool} (h : a.toNat = b.toNat) : a = b := by
    cases a <;> cases b <;> cases h <;> rfl
  have hboth : (held.join other).facts.status =
      ⟨(held.join other).facts.status.returned, (held.join other).facts.status.irp⟩ := rfl
  rw [hboth, hsame hreturned, hsame hirp]

theorem pending_le :
    (compares \ (held.join other).facts.pending.toFinset).card ≤
      (compares \ held.facts.pending.toFinset).card := by
  apply Finset.card_le_card (Finset.sdiff_subset_sdiff (Finset.Subset.refl _) _)
  intro was hwas
  rw [List.mem_toFinset] at hwas ⊢
  exact mem_pending_join.mpr (Or.inl hwas)

theorem room_join_le : (held.join other).room compares ≤ held.room compares := by
  have hregisters := @registers_le held other
  have hbound := @bound_le held other
  have hpending := @pending_le compares held other
  obtain ⟨hreturned, hirp⟩ := @status_le held other
  unfold room
  omega

theorem pending_same (hcompares : other.facts.pending.toFinset ⊆ compares)
    (h : (compares \ (held.join other).facts.pending.toFinset).card =
      (compares \ held.facts.pending.toFinset).card) :
    (held.join other).facts.pending.toFinset = held.facts.pending.toFinset := by
  have hsubset : compares \ (held.join other).facts.pending.toFinset ⊆
      compares \ held.facts.pending.toFinset := by
    apply Finset.sdiff_subset_sdiff (Finset.Subset.refl _)
    intro was hwas
    rw [List.mem_toFinset] at hwas ⊢
    exact mem_pending_join.mpr (Or.inl hwas)
  have hsame := Finset.eq_of_subset_of_card_le hsubset h.symm.le
  ext was
  rw [List.mem_toFinset, List.mem_toFinset, mem_pending_join]
  refine ⟨fun h => h.elim id fun hother => ?_, Or.inl⟩
  by_contra hmissing
  have hroom : was ∈ compares \ held.facts.pending.toFinset := by
    rw [Finset.mem_sdiff, List.mem_toFinset]
    exact ⟨hcompares (List.mem_toFinset.mpr hother), hmissing⟩
  rw [← hsame, Finset.mem_sdiff, List.mem_toFinset, mem_pending_join] at hroom
  exact hroom.2 (Or.inr hother)

theorem not_moved (hcompares : other.facts.pending.toFinset ⊆ compares)
    (hroom : (held.join other).room compares = held.room compares)
    (hdoubt : doubt (held.join other).facts.lost = doubt held.facts.lost) :
    ¬ held.moved other = true := by
  have hregisters := @registers_le held other
  have hbound := @bound_le held other
  have hpending := @pending_le compares held other
  obtain ⟨hreturned, hirp⟩ := @status_le held other
  unfold room at hroom
  rw [moved_iff, not_not, known_eq_iff]
  exact ⟨(registers_kept held other).mp (by omega), bound_same (by omega),
    pending_same hcompares (by omega), doubt_injective hdoubt,
    status_same (by omega) (by omega)⟩

end Room

theorem moves_finite (compares : Finset Compared) (start : DistinctFacts)
    (others : ℕ → DistinctFacts) (h : ∀ n, ∀ was ∈ (others n).facts.pending, was ∈ compares) :
    {n | (along start others n).moved (others n) = true}.Finite := by
  have hfalls : Antitone fun n => (along start others n).room compares :=
    antitone_nat_of_succ_le fun n => room_join_le
  have hdoubts : Antitone fun n => doubt (along start others n).facts.lost :=
    antitone_nat_of_succ_le fun n => (doubt_join _ _).trans_le (min_le_left _ _)
  apply ((finite_drops hfalls).union (finite_drops hdoubts)).subset
  intro n hmoved
  by_contra hstill
  simp only [Set.mem_union, Set.mem_ofPred_eq, not_or, not_not] at hstill
  apply not_moved _ hstill.1 hstill.2 hmoved
  intro was hwas
  exact h n was (List.mem_toFinset.mp hwas)

end DistinctFacts

/-- The fields of a compare fit the numbers and the texts of the source. -/
structure Compared.Fits (was : Compared) : Prop where
  code : ∀ code, was.code = some code → code < 2 ^ 64
  bound : ∀ bound, was.bound = some bound → bound < 2 ^ 64
  index : ∀ held, was.index = some held →
    held.1.length < 2 ^ 63 ∧ (-2 ^ 63 ≤ held.2.1 ∧ held.2.1 < 2 ^ 63) ∧ held.2.2 < 2 ^ 32

theorem strings_finite (length : Nat) : {text : String | text.length < length}.Finite := by
  have hchar : Finite Char := by
    apply Finite.of_injective (fun c : Char => (⟨c.val.toNat, c.val.toNat_lt⟩ : Fin (2 ^ 32)))
    intro c d h
    exact Char.ext (UInt32.toNat_inj.mp (Fin.mk.inj h))
  have hlists := List.finite_length_lt Char length
  apply (hlists.image String.ofList).subset
  intro text htext
  exact ⟨text.toList, htext, String.ofList_toList⟩

theorem options_finite {α : Type*} {values : Set α} (h : values.Finite) :
    {option : Option α | ∀ value, option = some value → value ∈ values}.Finite := by
  apply ((h.image some).insert none).subset
  intro option hoption
  cases option with
  | none => exact Set.mem_insert _ _
  | some value => exact Set.mem_insert_of_mem _ ⟨value, hoption value rfl, rfl⟩

theorem compares_finite {sites : Set Nat} (h : sites.Finite) :
    {was : Compared | was.site ∈ sites ∧ was.Fits}.Finite := by
  have hflags : (Set.univ : Set (Bool × Bool × Bool × Bool)).Finite := Set.finite_univ
  have hnumbers := options_finite (Set.finite_lt_nat (2 ^ 64))
  have hindex := options_finite ((strings_finite (2 ^ 63)).prod
    ((Set.finite_Ico (-2 ^ 63 : Int) (2 ^ 63)).prod (Set.finite_lt_nat (2 ^ 32))))
  have hfields := hflags.prod (hnumbers.prod (hnumbers.prod (hindex.prod h)))
  apply (hfields.image fun fields : (Bool × Bool × Bool × Bool) × Option Nat × Option Nat ×
    Option (String × Int × Nat) × Nat =>
      (⟨⟨fields.1.1, fields.1.2.1⟩, fields.2.1, fields.1.2.2.1, fields.2.2.2.1, fields.2.2.1,
        fields.1.2.2.2, fields.2.2.2.2⟩ : Compared)).subset
  rintro ⟨⟨carry, overflow⟩, code, proved, index, bound, chained, site⟩ ⟨hsite, hfits⟩
  exact ⟨⟨⟨carry, overflow, proved, chained⟩, code, bound, index, site⟩,
    ⟨trivial, hfits.code, hfits.bound, hfits.index, hsite⟩, rfl⟩

/-- The join is a lattice operation but for the order of the compares it lists: that is the same
from both sides, and from every order the edges come in, just when the compares of one site and
code stand in one order.  Over finitely many sites, joins change the facts finitely often. -/
theorem join_lattice (a b c : DistinctFacts) (state : Option DistinctFacts)
    (edges : List DistinctFacts) :
    (JoinLaws a b c ↔ AlignedPending a.facts.pending b.facts.pending) ∧
    ((∀ other : List DistinctFacts, other.Perm edges →
        Option.Rel (fun held other => Same held.facts other.facts)
          (other.foldl DistinctFacts.arrive state) (edges.foldl DistinctFacts.arrive state)) ↔
        ∀ edge ∈ edges, ∀ other ∈ edges,
          AlignedPending (DistinctFacts.unseen state edge) (DistinctFacts.unseen state other)) ∧
    ∀ (sites : Set Nat), sites.Finite → ∀ (start : DistinctFacts) (others : ℕ → DistinctFacts),
      (∀ n, ∀ was ∈ (others n).facts.pending, was.site ∈ sites ∧ was.Fits) →
        {n | (DistinctFacts.along start others n).moved (others n) = true}.Finite := by
  refine ⟨DistinctFacts.join_laws_iff a b c, DistinctFacts.arrivals_perm_iff state edges, ?_⟩
  intro sites hsites start others hothers
  apply DistinctFacts.moves_finite (compares_finite hsites).toFinset
  intro n was hwas
  rw [Set.Finite.mem_toFinset]
  exact hothers n was hwas

section Example

def tracedOnce (proved : Bool) : DistinctFacts where
  facts :=
    { pending := [⟨.subtractive, some 0x222000, proved, some ("rax", 0, 0), some 0x222000, false,
        0x140001000⟩] }
  registers := List.nodup_nil
  pending := List.nodup_singleton _

theorem join_lattice_traced :
    (JoinLaws (tracedOnce true) (tracedOnce true) (tracedOnce false) ↔
      AlignedPending (tracedOnce true).facts.pending (tracedOnce true).facts.pending) ∧
      {n : ℕ | (DistinctFacts.along (tracedOnce true) (fun _ => tracedOnce false) n).moved
        (tracedOnce false) = true}.Finite := by
  refine ⟨(join_lattice _ _ _ none []).1, ?_⟩
  apply (join_lattice (tracedOnce true) (tracedOnce true) (tracedOnce true) none []).2.2
    {0x140001000} (Set.finite_singleton _) (tracedOnce true)
    fun _ => tracedOnce false
  intro _ was hwas
  obtain rfl := List.mem_singleton.mp hwas
  refine ⟨rfl, ?_⟩
  constructor
  case code =>
    rintro _ ⟨⟩
    decide
  case bound =>
    rintro _ ⟨⟩
    decide
  case index =>
    rintro _ ⟨⟩
    decide

theorem join_takes_sides : ¬ ∀ a b c : DistinctFacts, JoinLaws a b c := by
  intro h
  have hpending := (h (tracedOnce true) (tracedOnce false) (tracedOnce false)).commutative.pending
  revert hpending
  decide

end Example

end WindbgMcp.Ioctl
