import Mathlib.Logic.Function.Basic
import WindbgMcp.Engine.Session
import WindbgMcp.Library.History

/-! The session registry: the sessions this server has held, oldest first, with the
set of internal workers and the two directions of the composite relation beside
them.  A hash map is a total function with the value an absent key reads as. -/
namespace WindbgMcp.Engine
open Library

def maxSessions : Nat := 4

def closedHistory : Nat := 8

structure SymbolPathSetting where
  path : String
  append : Bool
  deriving DecidableEq, Repr

structure Registry where
  all : List Session := []
  hidden : String → Bool := fun _ => false
  companions : String → List String := fun _ => []
  parents : String → Option String := fun _ => none
  opening : Client → Nat := fun _ => 0
  closing : Bool := false
  revoked : Client → Bool := fun _ => false
  symbolPaths : Client → Option SymbolPathSetting := fun _ => none

/-- The handle minted by the `n`-th open, at a reading of the system clock. -/
def mintSessionId (nanos n : Nat) : String :=
  "sess-" ++ Text.hexDigits nanos ++ "-" ++ toString n

def shuttingDown : String :=
  ("this server is shutting down — the client disconnected, and every session is being released. " ++
  "Nothing more can be opened on this connection.")

def credentialRevoked (owner : Client) : String :=
  "the credential for client `" ++ owner.name ++ ("` was revoked while this was opening, so the " ++
  "session was not registered — nothing was left running. Whoever administers this listener removed " ++
  "or rotated that client; the next request with the old token is refused outright.")

namespace Registry

def current (registry : Registry) (owner : Client) : Option Session :=
  registry.all.reverse.find? fun session =>
    !registry.hidden session.id && session.state.acceptsDefault && session.owner == owner

def find (registry : Registry) (id : String) : Option Session :=
  registry.all.find? fun session => session.id == id

def findVisible (registry : Registry) (id : String) : Option Session :=
  if registry.hidden id then none else registry.find id

def liveFor (registry : Registry) (owner : Client) : List Session :=
  registry.all.filter fun session =>
    !registry.hidden session.id && session.isLive && session.owner == owner

def companionsOf (registry : Registry) (id : String) : List Session :=
  (registry.companions id).filterMap registry.find

def owningWorkers (registry : Registry) : List Session :=
  registry.all.filter fun session =>
    (registry.parents session.id).isNone &&
      (session.child || (registry.companionsOf session.id).any Session.child)

def treeBusy (registry : Registry) (session : Session) : Bool :=
  session.busy || (registry.companionsOf session.id).any Session.busy

def reveal (registry : Registry) (id : String) : Registry :=
  { registry with hidden := Function.update registry.hidden id false }

def linkCompanion (registry : Registry) (parent companion : String) : Except String Registry :=
  if registry.hidden parent || !registry.hidden companion then
    .error "a composite session requires a public parent and hidden companion"
  else if (registry.find parent).isNone || (registry.find companion).isNone then
    .error "a composite session member left the registry before it was linked"
  else if (registry.parents companion).isSome then
    .error "an internal worker is already linked to a public session"
  else
    .ok { registry with
      parents := Function.update registry.parents companion (some parent)
      companions :=
        Function.update registry.companions parent (registry.companions parent ++ [companion]) }

/-- What a trim keeps before it looks at any history: an internal worker goes once
it is settled and its process is gone. -/
def retained (registry : Registry) : List Session :=
  registry.all.filter fun session => !registry.hidden session.id || session.isHeld

def holds (sessions : List Session) (id : String) : Bool :=
  sessions.any fun session => session.id == id

def owners (sessions : List Session) : List Client := (sessions.map Session.owner).eraseDups

/-- The three relations are pruned by what is held before the history is, and so
can name a session that the history then loses. -/
def trim (registry : Registry) : Registry :=
  let kept := registry.retained
  { registry with
    hidden := fun id => registry.hidden id && holds kept id
    parents := fun child =>
      (registry.parents child).filter fun parent => holds kept child && holds kept parent
    companions := fun parent =>
      if holds kept parent then (registry.companions parent).filter (holds kept) else []
    all := History.evictEach (closedHistory + maxSessions) Session.owner (owners kept)
      (fun session => !registry.hidden session.id) (fun session => !session.isHeld) kept }

def publicOf (registry : Registry) (owner : Client) : List Session :=
  registry.all.filter fun session => session.owner == owner && !registry.hidden session.id

def settledOf (registry : Registry) (owner : Client) : List Session :=
  (registry.publicOf owner).filter fun session => !session.isHeld

def outgoing (registry : Registry) (owner : Client) : List Session :=
  (registry.settledOf owner).take
    ((registry.publicOf owner).length - (closedHistory + maxSessions))

def endpointReserved (registry : Registry) (session : Session) : Bool :=
  session.kernelEndpoint.any fun endpoint =>
    registry.all.any fun held => held.isHeld && held.kernelEndpoint.any endpoint.conflicts

def liveTargetReserved (registry : Registry) (session : Session) : Bool :=
  session.secureKernelLiveTarget.any fun target =>
    registry.all.any fun held => held.isHeld && held.secureKernelLiveTarget.any target.conflicts

def refusal (registry : Registry) (session : Session) : Option String :=
  if registry.closing then some shuttingDown
  else if registry.revoked session.owner then some (credentialRevoked session.owner)
  else if registry.endpointReserved session then
    some ("This kernel endpoint is already reserved by a controller. No second attach was sent. " ++
      "Resolve the existing controller before retrying.")
  else if registry.liveTargetReserved session then
    some ("This Secure Kernel VM or vmwp process is already reserved by a controller. No second " ++
      "live session was opened. Resolve the existing controller before retrying.")
  else none

def push (registry : Registry) (session : Session) (hidden : Bool) : Registry :=
  { registry with
    all := registry.all ++ [session]
    hidden := if hidden then Function.update registry.hidden session.id true else registry.hidden }

def enroll (registry : Registry) (session : Session) (hidden : Bool)
    (companion : Option String) : Except String Registry :=
  match companion with
  | some companion => (registry.push session hidden).linkCompanion session.id companion
  | none => .ok (registry.push session hidden)

def withdraw (registry : Registry) (id : String) : Registry :=
  { registry with
    all := registry.all.filter fun session => session.id != id
    hidden := Function.update registry.hidden id false }

def admitWithCompanion (registry : Registry) (session : Session) (hidden : Bool)
    (companion : Option String) : Except String Unit × Registry :=
  match registry.refusal session with
  | some why => (.error why, registry)
  | none =>
    match registry.enroll session hidden companion with
    | .ok enrolled => (.ok (), enrolled.trim)
    | .error why => (.error why, (registry.push session hidden).withdraw session.id)

def modify (registry : Registry) (id : String) (change : Session → Session) : Registry :=
  { registry with
    all := registry.all.map fun session => if session.id == id then change session else session }

section Trimmed
variable {registry : Registry} {session : Session} {owner : Client}

theorem mem_retained : session ∈ registry.retained ↔
    session ∈ registry.all ∧ (registry.hidden session.id = false ∨ session.isHeld = true) := by
  simp [retained, List.mem_filter]

theorem retained_filter_public : registry.retained.filter (fun session =>
    session.owner == owner && !registry.hidden session.id) = registry.publicOf owner := by
  unfold retained publicOf
  rw [List.filter_filter]
  apply List.filter_congr
  intro session _
  cases registry.hidden session.id <;> simp

theorem retained_filter_settled : registry.retained.filter (fun session =>
    session.owner == owner && !session.isHeld) = registry.settledOf owner := by
  unfold retained settledOf publicOf
  rw [List.filter_filter, List.filter_filter]
  apply List.filter_congr
  intro session _
  cases registry.hidden session.id <;> cases session.isHeld <;> simp

theorem trim_all_subset (h : session ∈ registry.trim.all) : session ∈ registry.retained :=
  History.evictEach_sublist.subset h

theorem trim_all_sublist : registry.trim.all.Sublist registry.all :=
  History.evictEach_sublist.trans List.filter_sublist

theorem holds_iff {sessions : List Session} {id : String} :
    holds sessions id = true ↔ ∃ session ∈ sessions, session.id = id := by
  simp [holds]

theorem mem_trim_of_isHeld (hmem : session ∈ registry.all) (hheld : session.isHeld = true) :
    session ∈ registry.trim.all := by
  have hkept : registry.trim.all.filter Session.isHeld =
      registry.retained.filter Session.isHeld := by
    apply History.filter_evictEach_of_kept
    intro _ _ session _ hgo
    exact (Bool.not_eq_true' _).mp hgo
  have hretained : session ∈ registry.retained.filter Session.isHeld :=
    List.mem_filter.mpr ⟨mem_retained.mpr ⟨hmem, Or.inr hheld⟩, hheld⟩
  rw [← hkept] at hretained
  exact List.mem_of_mem_filter hretained

theorem filter_owner_trim : registry.trim.all.filter (fun session => session.owner == owner) =
    History.evictOf (closedHistory + maxSessions) Session.owner
      (fun session => !registry.hidden session.id) (fun session => !session.isHeld) owner
      (registry.retained.filter fun session => session.owner == owner) := by
  by_cases howner : owner ∈ owners registry.retained
  · exact History.filter_evictEach howner
  · have habsent : ∀ session ∈ registry.retained, session.owner ≠ owner := by
      intro session hmem heq
      apply howner
      rw [owners, List.mem_eraseDups]
      exact List.mem_map.mpr ⟨session, hmem, heq⟩
    have hnil : registry.retained.filter (fun session => session.owner == owner) = [] := by
      apply List.filter_eq_nil_iff.mpr
      intro session hmem heq
      exact habsent session hmem (beq_iff_eq.mp heq)
    have htrim : registry.trim.all.filter (fun session => session.owner == owner) = [] := by
      apply List.filter_eq_nil_iff.mpr
      intro session hmem heq
      exact habsent session (trim_all_subset hmem) (beq_iff_eq.mp heq)
    rw [hnil, htrim, History.evictOf, History.evict]
    rfl

theorem settled_trim : registry.trim.all.filter (fun session =>
    session.owner == owner && !session.isHeld) =
      (registry.settledOf owner).drop
        ((registry.publicOf owner).length - (closedHistory + maxSessions)) := by
  have hcount : (registry.retained.filter fun session => session.owner == owner).countP
      (fun session => session.owner == owner && !registry.hidden session.id) =
        (registry.publicOf owner).length := by
    rw [← retained_filter_public, List.countP_filter, List.countP_eq_length_filter]
    congr 1
    apply List.filter_congr
    intro session _
    cases session.owner == owner <;> simp
  have hsettled : (registry.retained.filter fun session => session.owner == owner).filter
      (fun session => session.owner == owner && !session.isHeld) = registry.settledOf owner := by
    rw [← retained_filter_settled, List.filter_filter]
    apply List.filter_congr
    intro session _
    cases session.owner == owner <;> simp
  have hcounts : ∀ session ∈ registry.retained.filter fun session => session.owner == owner,
      (session.owner == owner && !session.isHeld) = true →
        (session.owner == owner && !registry.hidden session.id) = true := by
    intro session hmem hgo
    have hretained := mem_retained.mp (List.mem_of_mem_filter hmem)
    simp_all
  rw [← hcount, ← hsettled, ← History.filter_mayGo_evict hcounts]
  change _ = (History.evictOf _ _ _ _ owner _).filter _
  rw [← filter_owner_trim, List.filter_filter]
  apply List.filter_congr
  intro session _
  cases session.owner == owner <;> simp

theorem mem_trim_of_not_outgoing (hmem : session ∈ registry.retained)
    (hout : session ∉ registry.outgoing session.owner) : session ∈ registry.trim.all := by
  by_cases hheld : session.isHeld = true
  · exact mem_trim_of_isHeld (mem_retained.mp hmem).1 hheld
  · have hsettled : session ∈ registry.settledOf session.owner := by
      rw [← retained_filter_settled]
      exact List.mem_filter.mpr ⟨hmem, by simp [hheld]⟩
    rw [← List.take_append_drop ((registry.publicOf session.owner).length -
      (closedHistory + maxSessions)) (registry.settledOf session.owner), ← settled_trim] at hsettled
    rcases List.mem_append.mp hsettled with hfront | hback
    · exact absurd hfront hout
    · exact List.mem_of_mem_filter hback

end Trimmed

end Registry

end WindbgMcp.Engine
