import WindbgMcp.Engine.Session
import WindbgMcp.Library.Run

/-! The listener's lease table, and the HTTP front end around it: requests in flight,
the MCP service they are handed to, and the sweeper.  A step of the front end is one
acquisition of the table's lock, one answer of the service, or one return of an await.
Instants are nanoseconds. -/
namespace WindbgMcp.Listen
open Engine (Client)

structure Presence where
  /-- The MCP sessions this credential has open in the service. -/
  mcp : List String := []
  releasing : Bool := false
  deadline : Option Nat := none
  leftOpen : Bool := false
  /-- Taken out of the configuration, rather than merely gone quiet. -/
  revoked : Bool := false
  deriving DecidableEq, Repr

structure Expired where
  mcp : List String
  revoked : Bool
  deriving DecidableEq, Repr

inductive Admission
  | serve | releasing | notYours
  deriving DecidableEq, Repr

/-- One entry a client; a client without an entry reads as the default. -/
structure Lease where
  grace : Nat
  clients : List Client
  presence : Client → Presence
  absent : ∀ client, client ∉ clients → presence client = {}

namespace Lease

def new (grace : Nat) : Lease where
  grace := grace
  clients := []
  presence := fun _ => {}
  absent := by simp

def heldByAnother (lease : Lease) (caller : Client) (session : String) : Bool :=
  lease.clients.any fun client =>
    client != caller && (lease.presence client).mcp.contains session

def stateOf (lease : Lease) (client : Client) (change : Presence → Presence) : Lease where
  grace := lease.grace
  clients := lease.clients.insert client
  presence := Function.update lease.presence client (change (lease.presence client))
  absent := by
    intro other hother
    have hne : other ≠ client := fun h => hother (h ▸ List.mem_insert_self)
    rw [Function.update_of_ne hne]
    exact lease.absent other fun h => hother (List.mem_insert_of_mem h)

/-- The second lock of `admit`: the caller's own entry, past the ownership check. -/
def admitOwn (lease : Lease) (now : Nat) (client : Client) : Lease × Admission :=
  let state := lease.presence client
  if state.releasing || state.revoked then (lease.stateOf client id, .releasing)
  else
    -- Renewed if there is one; never created.
    (lease.stateOf client fun state =>
      { state with deadline := state.deadline.map fun _ => now + lease.grace }, .serve)

def admits (lease : Lease) (now : Nat) (client : Client) (session : Option String) :
    Lease × Admission :=
  if session.any (lease.heldByAnother client) then (lease, .notYours)
  else lease.admitOwn now client

def settledSession (requested minted : Option String) (ok : Bool) : Option String :=
  match minted, requested with
  | some id, _ => some id
  | none, some id => if ok then some id else none
  | none, none => none

def settle (lease : Lease) (now : Nat) (requested minted : Option String) (ok : Bool)
    (client : Client) : Lease × Bool :=
  match settledSession requested minted ok with
  | none => (lease, false)
  | some session =>
    (lease.stateOf client fun state =>
      { state with
        mcp := state.mcp.insert session
        deadline := if state.revoked then state.deadline else some (now + lease.grace)
        leftOpen := false }, (lease.presence client).leftOpen)

def released (lease : Lease) (now : Nat) (client : Client) (id : String) : Lease :=
  lease.stateOf client fun state =>
    if state.mcp.contains id then
      let left := state.mcp.filter (· != id)
      { state with mcp := left, deadline := some (now + lease.grace), leftOpen := left.isEmpty }
    else state

def expiredFor (lease : Lease) (now : Nat) (client : Client) : Lease × Option Expired :=
  let state := lease.presence client
  if state.deadline.any (· ≤ now) then
    (lease.stateOf client fun state =>
      { state with mcp := [], deadline := none, leftOpen := false, releasing := true },
      some ⟨state.mcp, state.revoked⟩)
  else (lease.stateOf client id, none)

def releasedLeases (lease : Lease) (client : Client) : Lease :=
  lease.stateOf client fun state => { state with releasing := false }

def revoke (lease : Lease) (now : Nat) (client : Client) : Lease :=
  lease.stateOf client fun state => { state with revoked := true, deadline := some now }

def forget (lease : Lease) (client : Client) : Lease where
  grace := lease.grace
  clients := lease.clients.filter (· != client)
  presence := Function.update lease.presence client {}
  absent := by
    intro other hother
    by_cases h : other = client
    · rw [h, Function.update_self]
    · rw [Function.update_of_ne h]
      apply lease.absent
      simpa [h] using hother

def Records (lease : Lease) (client : Client) (id : String) : Prop :=
  id ∈ (lease.presence client).mcp

variable (lease : Lease) (now : Nat) (client : Client)

theorem heldByAnother_iff (session : String) :
    lease.heldByAnother client session = true ↔
      ∃ owner, owner ≠ client ∧ lease.Records owner session := by
  unfold heldByAnother Records
  rw [List.any_eq_true]
  constructor
  · rintro ⟨owner, -, h⟩
    simp only [Bool.and_eq_true, bne_iff_ne, List.contains_iff_mem] at h
    exact ⟨owner, h.1, h.2⟩
  · rintro ⟨owner, hne, hmem⟩
    have hpresent : owner ∈ lease.clients := by
      apply Decidable.byContradiction
      intro habsent
      rw [lease.absent owner habsent] at hmem
      cases hmem
    exact ⟨owner, hpresent, by simp [hne, hmem]⟩

@[simp] theorem presence_stateOf {change : Presence → Presence} :
    (lease.stateOf client change).presence client = change (lease.presence client) := by
  unfold stateOf
  simp

theorem presence_stateOf_of_ne {other : Client} (h : other ≠ client)
    {change : Presence → Presence} :
    (lease.stateOf client change).presence other = lease.presence other := by
  unfold stateOf
  simp [h]

theorem records_stateOf {change : Presence → Presence} (other : Client) (id : String) :
    (lease.stateOf client change).Records other id ↔
      if other = client then id ∈ (change (lease.presence client)).mcp
      else lease.Records other id := by
  unfold Records
  by_cases h : other = client
  · rw [h, if_pos rfl, presence_stateOf]
  · rw [if_neg h, presence_stateOf_of_ne lease client h]

theorem records_stateOf_of_mcp {change : Presence → Presence}
    (h : (change (lease.presence client)).mcp = (lease.presence client).mcp)
    (other : Client) (id : String) :
    (lease.stateOf client change).Records other id ↔ lease.Records other id := by
  rw [records_stateOf, h]
  split
  · next heq => rw [heq]; rfl
  · rfl

@[simp] theorem records_admitOwn (other : Client) (id : String) :
    (lease.admitOwn now client).1.Records other id ↔ lease.Records other id := by
  unfold admitOwn
  simp only
  split
  · rw [records_stateOf_of_mcp lease client rfl]
  · rw [records_stateOf_of_mcp lease client rfl]

@[simp] theorem records_settle (requested minted : Option String) (ok : Bool)
    (other : Client) (id : String) :
    (lease.settle now requested minted ok client).1.Records other id ↔
      lease.Records other id ∨
        other = client ∧ settledSession requested minted ok = some id := by
  unfold settle
  cases hsession : settledSession requested minted ok with
  | none => simp
  | some session =>
    simp only [records_stateOf, List.mem_insert_iff, Option.some.injEq]
    by_cases h : other = client
    · subst h
      simp only [if_true, true_and, Records]
      constructor
      · rintro (rfl | hmem)
        · exact Or.inr rfl
        · exact Or.inl hmem
      · rintro (hmem | rfl)
        · exact Or.inr hmem
        · exact Or.inl rfl
    · simp [h]

@[simp] theorem records_released (gone : String) (other : Client) (id : String) :
    (lease.released now client gone).Records other id ↔
      lease.Records other id ∧ ¬ (other = client ∧ id = gone) := by
  unfold released
  rw [records_stateOf]
  by_cases h : other = client
  · subst h
    simp only [if_true, Records]
    split
    · simp
    · next hnot =>
      have hnot : gone ∉ (lease.presence other).mcp := by simpa using hnot
      simp only [true_and]
      constructor
      · exact fun hmem => ⟨hmem, fun heq => hnot (heq ▸ hmem)⟩
      · exact fun hmem => hmem.1
  · simp [h]

@[simp] theorem records_revoke (other : Client) (id : String) :
    (lease.revoke now client).Records other id ↔ lease.Records other id :=
  records_stateOf_of_mcp lease client rfl other id

@[simp] theorem records_releasedLeases (other : Client) (id : String) :
    (lease.releasedLeases client).Records other id ↔ lease.Records other id :=
  records_stateOf_of_mcp lease client rfl other id

@[simp] theorem records_forget (other : Client) (id : String) :
    (lease.forget client).Records other id ↔ lease.Records other id ∧ other ≠ client := by
  unfold forget Records
  by_cases h : other = client
  · simp [h]
  · simp [h]

theorem records_expiredFor_none (h : (lease.expiredFor now client).2 = none)
    (other : Client) (id : String) :
    (lease.expiredFor now client).1.Records other id ↔ lease.Records other id := by
  unfold expiredFor at *
  simp only at *
  split at h
  · cases h
  · next hlater =>
    rw [if_neg hlater]
    apply records_stateOf_of_mcp
    rfl

theorem records_expiredFor_some {expired : Expired}
    (h : (lease.expiredFor now client).2 = some expired) (other : Client) (id : String) :
    lease.Records other id ↔
      (lease.expiredFor now client).1.Records other id ∨ other = client ∧ id ∈ expired.mcp := by
  unfold expiredFor at *
  simp only at *
  split at h
  · next hdue =>
    obtain rfl := Option.some.inj h
    rw [if_pos hdue, records_stateOf]
    by_cases hother : other = client
    · simp [hother, Records]
    · simp [hother]
  · cases h

end Lease

end WindbgMcp.Listen
