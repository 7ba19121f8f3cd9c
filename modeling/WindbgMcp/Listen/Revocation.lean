import WindbgMcp.Listen.Lease

/-! A revoked lease is to expire at once: which operations on the lease table leave its
deadline and its mark alone. -/
namespace WindbgMcp.Listen
open Engine (Client)
open Library

inductive Operation
  | admits (client : Client) (session : Option String)
  | settle (requested minted : Option String) (ok : Bool) (client : Client)
  | released (client : Client) (id : String)
  | expiredFor (client : Client)
  | releasedLeases (client : Client)
  | revoke (client : Client)
  | forget (client : Client)
  deriving DecidableEq, Repr

namespace Lease

def step (lease : Lease) : Nat × Operation → Lease
  | (now, .admits client session) => (lease.admits now client session).1
  | (now, .settle requested minted ok client) => (lease.settle now requested minted ok client).1
  | (now, .released client id) => lease.released now client id
  | (now, .expiredFor client) => (lease.expiredFor now client).1
  | (_, .releasedLeases client) => lease.releasedLeases client
  | (now, .revoke client) => lease.revoke now client
  | (_, .forget client) => lease.forget client

def Consumes (client : Client) (lease : Lease) (operation : Nat × Operation) : Prop :=
  operation.2 = .expiredFor client ∧ ((lease.expiredFor operation.1 client).2).isSome = true

/-- The operation is not a goodbye to an MCP session that the client's entry records, nor a
second revocation at a later instant, nor the end of the entry. -/
def Spares (client : Client) (lease : Lease) (operation : Nat × Operation) : Prop :=
  (∀ id, operation.2 = .released client id → ¬ lease.Records client id) ∧
    (operation.2 = .revoke client →
      ∀ due ∈ (lease.presence client).deadline, operation.1 ≤ due) ∧
    operation.2 ≠ .forget client

/-- The client is marked as revoked, and its lease is due no later than the instant. -/
structure Revoked (client : Client) (due : Nat) (lease : Lease) : Prop where
  marked : (lease.presence client).revoked = true
  dueBy : ∃ instant ≤ due, (lease.presence client).deadline = some instant

variable {lease : Lease} {client : Client} {due : Nat}

theorem Revoked.of_presence {lease' : Lease} (h : Revoked client due lease)
    (hmarked : (lease'.presence client).revoked = (lease.presence client).revoked)
    (hdue : (lease'.presence client).deadline = (lease.presence client).deadline) :
    Revoked client due lease' where
  marked := hmarked.trans h.marked
  dueBy := by
    rw [hdue]
    exact h.dueBy

theorem revoked_revoke (lease : Lease) (now : Nat) (client : Client) :
    Revoked client now (lease.revoke now client) where
  marked := by simp [revoke]
  dueBy := ⟨now, Nat.le_refl now, by simp [revoke]⟩

theorem Revoked.stateOf_of_ne (h : Revoked client due lease) {other : Client}
    (hother : other ≠ client) (change : Presence → Presence) :
    Revoked client due (lease.stateOf other change) := by
  apply h.of_presence <;> rw [presence_stateOf_of_ne lease other hother.symm]

theorem Revoked.stateOf (h : Revoked client due lease) {change : Presence → Presence}
    (hmarked : (change (lease.presence client)).revoked = (lease.presence client).revoked)
    (hdue : (change (lease.presence client)).deadline = (lease.presence client).deadline)
    (other : Client) : Revoked client due (lease.stateOf other change) := by
  by_cases hother : other = client
  · subst hother
    apply h.of_presence <;> rw [presence_stateOf] <;> assumption
  · exact h.stateOf_of_ne hother change

namespace Revoked

theorem admits (h : Revoked client due lease) (now : Nat) (caller : Client)
    (session : Option String) : Revoked client due (lease.admits now caller session).1 := by
  unfold Lease.admits admitOwn
  split
  · exact h
  · by_cases hcaller : caller = client
    · subst hcaller
      simp only [h.marked, Bool.or_true, if_true]
      exact h.stateOf rfl rfl caller
    · dsimp only
      split
      · exact h.stateOf_of_ne hcaller id
      · dsimp only
        exact h.stateOf_of_ne hcaller _

theorem settle (h : Revoked client due lease) (now : Nat) (requested minted : Option String)
    (ok : Bool) (caller : Client) :
    Revoked client due (lease.settle now requested minted ok caller).1 := by
  unfold Lease.settle
  cases settledSession requested minted ok with
  | none => exact h
  | some session =>
    dsimp only
    apply h.stateOf
    · rfl
    · simp [h.marked]

theorem released (h : Revoked client due lease) (now : Nat) (caller : Client) (id : String)
    (hspares : caller = client → ¬ lease.Records client id) :
    Revoked client due (lease.released now caller id) := by
  by_cases hcaller : caller = client
  · subst hcaller
    have hunheld : id ∉ (lease.presence caller).mcp := hspares rfl
    apply h.stateOf <;> simp [hunheld]
  · exact h.stateOf_of_ne hcaller _

theorem expiredFor (h : Revoked client due lease) (now : Nat) (caller : Client)
    (hkept : ¬ Consumes client lease (now, .expiredFor caller)) :
    Revoked client due (lease.expiredFor now caller).1 := by
  by_cases hcaller : caller = client
  · subst hcaller
    unfold Consumes at hkept
    unfold Lease.expiredFor at hkept ⊢
    dsimp only at hkept ⊢
    split
    · next hnow => simp [hnow] at hkept
    · exact h.stateOf rfl rfl caller
  · unfold Lease.expiredFor
    dsimp only
    split
    · dsimp only
      exact h.stateOf_of_ne hcaller _
    · exact h.stateOf_of_ne hcaller id

theorem revoke (h : Revoked client due lease) (now : Nat) (caller : Client)
    (hspares : caller = client → ∀ instant ∈ (lease.presence client).deadline, now ≤ instant) :
    Revoked client due (lease.revoke now caller) := by
  by_cases hcaller : caller = client
  · subst hcaller
    obtain ⟨instant, hinstant, hdeadline⟩ := h.dueBy
    have hnow := hspares rfl instant hdeadline
    have hrevoked := revoked_revoke lease now caller
    exact ⟨hrevoked.marked, now, Nat.le_trans hnow hinstant, by simp [Lease.revoke]⟩
  · exact h.stateOf_of_ne hcaller _

theorem forget (h : Revoked client due lease) {caller : Client} (hcaller : caller ≠ client) :
    Revoked client due (lease.forget caller) := by
  have hsame : (lease.forget caller).presence client = lease.presence client := by
    simp [Lease.forget, Function.update_of_ne hcaller.symm]
  apply h.of_presence <;> rw [hsame]

theorem step (h : Revoked client due lease) (operation : Nat × Operation)
    (hspares : Spares client lease operation) (hkept : ¬ Consumes client lease operation) :
    Revoked client due (lease.step operation) := by
  obtain ⟨now, operation⟩ := operation
  obtain ⟨hreleased, hrevoke, hforget⟩ := hspares
  cases operation with
  | admits caller session => exact h.admits now caller session
  | settle requested minted ok caller => exact h.settle now requested minted ok caller
  | released caller id =>
    apply h.released
    intro hcaller
    exact hreleased id (congrArg (Operation.released · id) hcaller)
  | expiredFor caller => exact h.expiredFor now caller hkept
  | releasedLeases caller =>
    dsimp only [Lease.step, Lease.releasedLeases]
    apply h.stateOf <;> rfl
  | revoke caller =>
    apply h.revoke
    intro hcaller
    exact hrevoke (congrArg Operation.revoke hcaller)
  | forget caller =>
    apply h.forget
    intro hcaller
    exact hforget (congrArg Operation.forget hcaller)

theorem run (h : Revoked client due lease) (operations : List (Nat × Operation))
    (hspares : ∀ visit ∈ visits Lease.step lease operations,
      Spares client visit.1 visit.2 ∧ ¬ Consumes client visit.1 visit.2) :
    Revoked client due (Library.run Lease.step lease operations) := by
  apply run_invariant (Revoked client due)
    (fun lease operation => Spares client lease operation ∧ ¬ Consumes client lease operation)
    _ h hspares
  intro lease operation h hallowed
  exact h.step operation hallowed.1 hallowed.2

theorem not_serve (h : Revoked client due lease) (now : Nat) (session : Option String) :
    (lease.admits now client session).2 ≠ .serve := by
  unfold Lease.admits admitOwn
  split
  · nofun
  · simp [h.marked]

theorem fires (h : Revoked client due lease) {now : Nat} (hnow : due ≤ now) :
    (lease.expiredFor now client).2 = some ⟨(lease.presence client).mcp, true⟩ := by
  obtain ⟨instant, hinstant, hdeadline⟩ := h.dueBy
  have hdue : (lease.presence client).deadline.any (· ≤ now) = true := by
    rw [hdeadline, Option.any_some, decide_eq_true_eq]
    exact Nat.le_trans hinstant hnow
  unfold Lease.expiredFor
  simp only [hdue, if_true, h.marked]

end Revoked

theorem presence_of_refused (lease : Lease) (now : Nat) (caller : Client)
    (session : Option String) (h : (lease.admits now caller session).2 ≠ .serve) (other : Client) :
    (lease.admits now caller session).1.presence other = lease.presence other := by
  unfold admits admitOwn at *
  split
  · rfl
  · dsimp only at *
    split
    · by_cases hother : other = caller
      · rw [hother, presence_stateOf]
        rfl
      · rw [presence_stateOf_of_ne lease caller hother]
    · simp_all

/-- What a revocation is to be until a sweep has acted on it: from one state to a later one
its mark stays, its deadline moves no later, nothing is served, and the next sweep takes the
lease. -/
structure Fires (client : Client) (revokedAt : Nat) (before after : Lease) : Prop where
  marked : (after.presence client).revoked = true
  notLater : ∀ due ∈ (before.presence client).deadline,
    ∃ due' ∈ (after.presence client).deadline, due' ≤ due
  refused : ∀ now session, (after.admits now client session).2 ≠ .serve
  swept : ∀ now, revokedAt ≤ now →
    (after.expiredFor now client).2 = some ⟨(after.presence client).mcp, true⟩

/-- No operation revives a revoked lease but a goodbye to one of its MCP sessions, a second
revocation and the end of its entry; and no refused request renews any lease. -/
theorem revocation_fires (lease : Lease) (client : Client) (now : Nat)
    (front back : List (Nat × Operation))
    (h : ∀ visit ∈ visits step (lease.revoke now client) (front ++ back),
      Spares client visit.1 visit.2 ∧ ¬ Consumes client visit.1 visit.2) :
    Fires client now (run step (lease.revoke now client) front)
        (run step (lease.revoke now client) (front ++ back)) ∧
      ∀ visit ∈ visits step (lease.revoke now client) (front ++ back), ∀ caller session,
        visit.2.2 = .admits caller session →
          (visit.1.admits visit.2.1 caller session).2 ≠ .serve →
            ∀ other, ((step visit.1 visit.2).presence other).deadline =
              (visit.1.presence other).deadline := by
  have hstart := revoked_revoke lease now client
  rw [visits_append] at h
  have hfront := hstart.run front fun visit hvisit => h visit (List.mem_append_left _ hvisit)
  constructor
  · have hback (due : Nat) (hdue : Revoked client due (run step (lease.revoke now client) front)) :
        Revoked client due (run step (lease.revoke now client) (front ++ back)) := by
      rw [run_append]
      exact hdue.run back fun visit hvisit => h visit (List.mem_append_right _ hvisit)
    have hafter := hback now hfront
    constructor
    case marked => exact hafter.marked
    case notLater =>
      intro due hdue
      obtain ⟨due', hle, hdue'⟩ := (hback due ⟨hfront.marked, due, Nat.le_refl due, hdue⟩).dueBy
      exact ⟨due', hdue', hle⟩
    case refused => exact hafter.not_serve
    case swept =>
      intro later hlater
      exact hafter.fires hlater
  · intro visit _ caller session hadmits hrefused other
    obtain ⟨before, instant, operation⟩ := visit
    obtain rfl : operation = .admits caller session := hadmits
    exact congrArg Presence.deadline
      (presence_of_refused before instant caller session hrefused other)

def connected : Lease :=
  run step (Lease.new 10)
    [(0, .settle none (some "mcp") true ⟨"laptop", 1⟩), (1, .admits ⟨"laptop", 1⟩ (some "mcp"))]

theorem connected_revoked :
    Fires ⟨"laptop", 1⟩ 2 (run step (connected.revoke 2 ⟨"laptop", 1⟩) [])
        (run step (connected.revoke 2 ⟨"laptop", 1⟩)
          ([] ++ [(3, .settle (some "mcp") none true ⟨"laptop", 1⟩)])) ∧
      ∀ visit ∈ visits step (connected.revoke 2 ⟨"laptop", 1⟩)
          ([] ++ [(3, .settle (some "mcp") none true ⟨"laptop", 1⟩)]), ∀ caller session,
        visit.2.2 = .admits caller session →
          (visit.1.admits visit.2.1 caller session).2 ≠ .serve →
            ∀ other, ((step visit.1 visit.2).presence other).deadline =
              (visit.1.presence other).deadline := by
  apply revocation_fires connected ⟨"laptop", 1⟩ 2 []
  simp [visits, Spares, Consumes]

/-- The admitted request was a goodbye: it puts the deadline of the revoked lease off by a
whole grace. -/
theorem goodbye_postpones :
    ¬ ∀ (lease : Lease) (client : Client) (now : Nat) (front back : List (Nat × Operation)),
      (∀ visit ∈ visits step (lease.revoke now client) (front ++ back),
        now ≤ visit.2.1 ∧ ¬ Consumes client visit.1 visit.2) →
      Fires client now (run step (lease.revoke now client) front)
        (run step (lease.revoke now client) (front ++ back)) := by
  intro h
  have hfires := h connected ⟨"laptop", 1⟩ 2 [] [(3, .released ⟨"laptop", 1⟩ "mcp")]
    (by simp [visits, Consumes])
  obtain ⟨due', hdue', hle⟩ := hfires.notLater 2 rfl
  obtain rfl : 13 = due' := Option.some.inj hdue'
  omega

end Lease

end WindbgMcp.Listen
