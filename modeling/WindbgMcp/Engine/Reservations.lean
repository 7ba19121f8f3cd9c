import WindbgMcp.Engine.Server

/-! A controller's endpoint is not stored as reserved: every admission derives it
from the sessions that are live or still have their worker's process handle.  A
kernel handoff takes that handle away and gives it back when the exit cannot be
verified. -/
namespace WindbgMcp.Engine
open Library

def Session.conflicts (session other : Session) : Bool :=
  session.kernelEndpoint.any (fun endpoint => other.kernelEndpoint.any endpoint.conflicts) ||
    session.secureKernelLiveTarget.any fun target =>
      other.secureKernelLiveTarget.any target.conflicts

structure Supervisor where
  server : Server := {}
  /-- Handoffs that found their session unresolved and its pid exact. -/
  checked : List String := []
  /-- Sessions whose process handle a handoff holds until it knows of the exit. -/
  handoffs : List String := []

inductive Event
  | act (act : Act)
  | checkHandoff (id : String) (pid : Nat)
  | takeHandoff (id : String)
  | handoffFailed (id : String)
  | handoffVerified (id : String)

namespace Supervisor

def registry (supervisor : Supervisor) : Registry := supervisor.server.registry

def step (supervisor : Supervisor) : Event → Supervisor
  | .act act => { supervisor with server := supervisor.server.step act }
  | .checkHandoff id pid =>
    if (supervisor.registry.find id).any fun session =>
        session.kind == .kernel && session.kernelUnresolved && session.pid == pid then
      { supervisor with checked := id :: supervisor.checked }
    else supervisor
  | .takeHandoff id =>
    if supervisor.checked.contains id && (supervisor.registry.find id).any Session.child then
      { server := supervisor.server.step (.take id)
        checked := supervisor.checked.erase id
        handoffs := id :: supervisor.handoffs }
    else { supervisor with checked := supervisor.checked.erase id }
  | .handoffFailed id =>
    if supervisor.handoffs.contains id then
      { supervisor with
        server := supervisor.server.onRegistry
          (supervisor.registry.modify id fun session => { session with child := true })
        handoffs := supervisor.handoffs.erase id }
    else supervisor
  | .handoffVerified id =>
    if supervisor.handoffs.contains id then
      { supervisor with
        server := supervisor.server.step (.completeHandoff id)
        handoffs := supervisor.handoffs.erase id }
    else supervisor

end Supervisor

/-- The steps that keep reservations: no controller is admitted for a target whose
former controller has its process handle out with a handoff. -/
def Event.keepsReservations (supervisor : Supervisor) : Event → Bool
  | .act (.admits session _ _) =>
    (supervisor.registry.refusal session).isSome ||
      supervisor.registry.all.all fun held =>
        !session.conflicts held || !supervisor.handoffs.contains held.id
  | _ => true

section Symmetry

theorem endpoint_conflicts_comm (endpoint other : KdConn.Endpoint) :
    endpoint.conflicts other = other.conflicts endpoint := by
  unfold KdConn.Endpoint.conflicts
  rw [Bool.or_comm (endpoint == .unknown), BEq.comm (a := endpoint) (b := other)]

theorem target_conflicts_comm (target other : SecureKernelLiveTarget) :
    target.conflicts other = other.conflicts target := by
  unfold SecureKernelLiveTarget.conflicts
  rw [BEq.comm (a := target.vmwpPid), BEq.comm (a := target.vmId)]

theorem any_any_comm {α : Type} {test : α → α → Bool} (hcomm : ∀ x y, test x y = test y x)
    (first second : Option α) :
    first.any (fun x => second.any (test x)) = second.any fun x => first.any (test x) := by
  cases first with
  | none => cases second <;> rfl
  | some x =>
    cases second with
    | none => rfl
    | some y => exact hcomm x y

theorem Session.conflicts_comm (session other : Session) :
    session.conflicts other = other.conflicts session := by
  unfold Session.conflicts
  rw [any_any_comm endpoint_conflicts_comm, any_any_comm target_conflicts_comm]

end Symmetry

namespace Registry
variable {registry : Registry} {handoffs : List String}

def Owns (handoffs : List String) (session : Session) : Prop :=
  session.child = true ∨ session.id ∈ handoffs

def Exclusive (handoffs : List String) (registry : Registry) : Prop :=
  registry.all.Pairwise fun session other =>
    session.conflicts other = true → ¬(Owns handoffs session ∧ Owns handoffs other)

theorem not_held_of_admitted {session held : Session}
    (hadmitted : registry.refusal session = none) (hmem : held ∈ registry.all)
    (hconflicts : session.conflicts held = true) : held.isHeld = false := by
  by_contra hheld
  rw [Bool.not_eq_false] at hheld
  have hreserved : registry.endpointReserved session = true ∨
      registry.liveTargetReserved session = true := by
    unfold Session.conflicts at hconflicts
    rw [Bool.or_eq_true, Option.any_eq_true, Option.any_eq_true] at hconflicts
    cases hconflicts with
    | inl hendpoint =>
      obtain ⟨endpoint, hsome, hother⟩ := hendpoint
      apply Or.inl
      unfold endpointReserved
      rw [Option.any_eq_true]
      refine ⟨endpoint, hsome, List.any_eq_true.mpr ⟨held, hmem, ?_⟩⟩
      rw [hheld, hother, Bool.true_and]
    | inr htarget =>
      obtain ⟨target, hsome, hother⟩ := htarget
      apply Or.inr
      unfold liveTargetReserved
      rw [Option.any_eq_true]
      refine ⟨target, hsome, List.any_eq_true.mpr ⟨held, hmem, ?_⟩⟩
      rw [hheld, hother, Bool.true_and]
  unfold refusal at hadmitted
  cases hreserved with
  | inl hendpoint =>
    rw [hendpoint, if_pos rfl] at hadmitted
    split at hadmitted
    · cases hadmitted
    · split at hadmitted <;> cases hadmitted
  | inr htarget =>
    rw [htarget, if_pos rfl] at hadmitted
    split at hadmitted
    · cases hadmitted
    · split at hadmitted
      · cases hadmitted
      · split at hadmitted <;> cases hadmitted

theorem exclusive_sublist {smaller : Registry} (hsub : smaller.all.Sublist registry.all)
    (h : registry.Exclusive handoffs) : smaller.Exclusive handoffs :=
  h.sublist hsub

/-- A change that moves no endpoint and gives nobody a handle it did not have or
was not owed. -/
theorem exclusive_modify {handoffs' : List String} {id : String} {change : Session → Session}
    (hendpoint : ∀ session, (change session).kernelEndpoint = session.kernelEndpoint)
    (htarget : ∀ session,
      (change session).secureKernelLiveTarget = session.secureKernelLiveTarget)
    (howns : ∀ session ∈ registry.all,
      Owns handoffs' (if session.id == id then change session else session) →
        Owns handoffs session)
    (h : registry.Exclusive handoffs) : (registry.modify id change).Exclusive handoffs' := by
  have hconflicts : ∀ session other : Session,
      (if session.id == id then change session else session).conflicts
        (if other.id == id then change other else other) = session.conflicts other := by
    intro session other
    unfold Session.conflicts
    split <;> split <;> simp only [hendpoint, htarget]
  unfold Exclusive modify
  rw [List.pairwise_map]
  apply List.Pairwise.imp_of_mem _ h
  intro session other hsession hother hapart hconflict howned
  rw [hconflicts] at hconflict
  exact hapart hconflict ⟨howns session hsession howned.1, howns other hother howned.2⟩

theorem exclusive_keep {id : String} {change : Session → Session}
    (hid : ∀ session, (change session).id = session.id)
    (hendpoint : ∀ session, (change session).kernelEndpoint = session.kernelEndpoint)
    (htarget : ∀ session,
      (change session).secureKernelLiveTarget = session.secureKernelLiveTarget)
    (hchild : ∀ session, (change session).child = true → session.child = true)
    (h : registry.Exclusive handoffs) : (registry.modify id change).Exclusive handoffs := by
  apply exclusive_modify hendpoint htarget _ h
  intro session _ howned
  split at howned
  · cases howned with
    | inl howned => exact Or.inl (hchild session howned)
    | inr howned => exact Or.inr (hid session ▸ howned)
  · exact howned

theorem exclusive_push {session : Session} (hidden : Bool)
    (hfree : ∀ held ∈ registry.all, session.conflicts held = true → ¬Owns handoffs held)
    (h : registry.Exclusive handoffs) : (registry.push session hidden).Exclusive handoffs := by
  unfold Exclusive push
  rw [List.pairwise_append]
  refine ⟨h, List.pairwise_singleton _ _, ?_⟩
  intro held hheld other hother hconflict howned
  rw [List.mem_singleton.mp hother, Session.conflicts_comm] at hconflict
  exact hfree held hheld hconflict howned.1

end Registry

namespace Supervisor
open Registry
variable {supervisor : Supervisor}

def Exclusive (supervisor : Supervisor) : Prop :=
  supervisor.registry.Exclusive supervisor.handoffs

theorem exclusive_admits {session : Session} {hidden : Bool} {companion : Option String}
    (hids : supervisor.server.Identified) (h : supervisor.Exclusive)
    (hkeeps : (Event.act (.admits session hidden companion)).keepsReservations supervisor = true) :
    (supervisor.step (.act (.admits session hidden companion))).Exclusive := by
  simp only [step, Server.step]
  split
  · rename_i hspawned
    have hfresh := hids.fresh session.id hspawned
    rcases supervisor.server.registry.admitWithCompanion_cases hidden companion hfresh with
      heq | heq | ⟨enrolled, hadmitted, hok, heq⟩
    · exact (congrArg (Registry.Exclusive supervisor.handoffs) heq).mpr h
    · exact (congrArg (Registry.Exclusive supervisor.handoffs) heq).mpr h
    · have hpushed : (supervisor.registry.push session hidden).Exclusive supervisor.handoffs := by
        apply exclusive_push hidden _ h
        intro held hheld hconflict howned
        cases howned with
        | inl hchild =>
          have hnot := not_held_of_admitted hadmitted hheld hconflict
          rw [Session.isHeld, hchild, Bool.or_true] at hnot
          exact absurd hnot (by decide)
        | inr hout =>
          have hgone : (supervisor.registry.refusal session).isSome = false := by
            rw [registry, hadmitted]
            rfl
          simp only [Event.keepsReservations, hgone, Bool.false_or, List.all_eq_true] at hkeeps
          have := hkeeps held hheld
          simp [hconflict, hout] at this
      apply (congrArg (Registry.Exclusive supervisor.handoffs) heq).mpr
      apply exclusive_sublist _ hpushed
      exact (enroll_all hok) ▸ trim_all_sublist
  · exact h

theorem exclusive_act (act : Act) (hids : supervisor.server.Identified)
    (h : supervisor.Exclusive)
    (hkeeps : (Event.act act).keepsReservations supervisor = true) :
    (supervisor.step (.act act)).Exclusive := by
  cases act with
  | mint nanos => exact h
  | admits session hidden companion => exact exclusive_admits hids h hkeeps
  | link parent companion =>
    simp only [step, Server.step]
    cases hok : supervisor.server.registry.linkCompanion parent companion with
    | error why => exact h
    | ok linked =>
      obtain ⟨_, _, _, _, _, rfl⟩ := linkCompanion_ok hok
      exact h
  | reveal id => exact h
  | transition id now next =>
    apply exclusive_keep _ _ _ _ h <;> intro session
    · rfl
    · rfl
    · rfl
    · exact fun hchild => hchild
  | confirmRelease id =>
    apply exclusive_keep _ _ _ _ h <;> intro session
    · rfl
    · rfl
    · rfl
    · exact fun hchild => hchild
  | completeHandoff id =>
    apply exclusive_keep _ _ _ _ h <;> intro session
    · rfl
    · rfl
    · rfl
    · exact fun hchild => hchild
  | take id =>
    apply exclusive_keep _ _ _ _ h <;> intro session
    · rfl
    · rfl
    · rfl
    · exact fun hchild => absurd hchild Bool.false_ne_true
  | trim => exact exclusive_sublist trim_all_sublist h

/-- The handle changes hands, and the session is as much its owner as before. -/
theorem exclusive_takeHandoff (id : String) (hids : supervisor.server.Identified)
    (h : supervisor.Exclusive) : (supervisor.step (.takeHandoff id)).Exclusive := by
  simp only [step]
  split
  · rename_i htaken
    rw [Bool.and_eq_true, Option.any_eq_true] at htaken
    obtain ⟨owner, hfind, hchild⟩ := htaken.2
    refine exclusive_modify (fun session => ?_) (fun session => ?_)
      (fun session hmem howned => ?_) h
    · rfl
    · rfl
    · by_cases hid : session.id = id
      · have hsame : supervisor.registry.find session.id = some session :=
          find_of_mem hids.distinct hmem
        rw [hid, hfind] at hsame
        exact Or.inl (Option.some.inj hsame ▸ hchild)
      · rw [if_neg (by simpa using hid)] at howned
        cases howned with
        | inl howned => exact Or.inl howned
        | inr howned => exact Or.inr ((List.mem_cons.mp howned).resolve_left hid)
  · exact h

theorem exclusive_handoffFailed (id : String) (h : supervisor.Exclusive) :
    (supervisor.step (.handoffFailed id)).Exclusive := by
  simp only [step]
  split
  · rename_i hout
    refine exclusive_modify (fun session => ?_) (fun session => ?_)
      (fun session hmem howned => ?_) h
    · rfl
    · rfl
    · by_cases hid : session.id = id
      · apply Or.inr
        rw [hid]
        exact List.contains_iff_mem.mp hout
      · rw [if_neg (by simpa using hid)] at howned
        cases howned with
        | inl howned => exact Or.inl howned
        | inr howned => exact Or.inr (List.mem_of_mem_erase howned)
  · exact h

theorem exclusive_handoffVerified (id : String) (h : supervisor.Exclusive) :
    (supervisor.step (.handoffVerified id)).Exclusive := by
  simp only [step]
  split
  · refine exclusive_modify (fun session => ?_) (fun session => ?_)
      (fun session hmem howned => ?_) h
    · rfl
    · rfl
    · split at howned
      · exact howned.imp_right List.mem_of_mem_erase
      · exact howned.imp_right List.mem_of_mem_erase
  · exact h

theorem exclusive_step (event : Event) (hids : supervisor.server.Identified)
    (h : supervisor.Exclusive) (hkeeps : event.keepsReservations supervisor = true) :
    (supervisor.step event).Exclusive := by
  cases event with
  | act act => exact exclusive_act act hids h hkeeps
  | checkHandoff id pid =>
    simp only [step]
    split <;> exact h
  | takeHandoff id => exact exclusive_takeHandoff id hids h
  | handoffFailed id => exact exclusive_handoffFailed id h
  | handoffVerified id => exact exclusive_handoffVerified id h

theorem identified_step (event : Event) (hids : supervisor.server.Identified) :
    (supervisor.step event).server.Identified := by
  cases event with
  | act act => exact hids.step act
  | checkHandoff id pid =>
    simp only [step]
    split <;> exact hids
  | takeHandoff id =>
    simp only [step]
    split
    · exact hids.step (.take id)
    · exact hids
  | handoffFailed id =>
    simp only [step]
    split
    · apply hids.modify
      intro session
      rfl
    · exact hids
  | handoffVerified id =>
    simp only [step]
    split
    · exact hids.step (.completeHandoff id)
    · exact hids

/-- In every run that admits no controller while a conflicting one has its process
handle out with a handoff, no two sessions whose targets conflict both own a
worker. -/
theorem controllers_exclusive {events : List Event}
    (hkeeps : ∀ visit ∈ visits step {} events, visit.2.keepsReservations visit.1 = true) :
    (run step {} events).registry.all.Pairwise fun session other =>
      session.conflicts other = true → ¬(session.child = true ∧ other.child = true) := by
  have hsound : (run step {} events).server.Identified ∧ (run step {} events).Exclusive := by
    refine run_invariant
      (fun supervisor : Supervisor => supervisor.server.Identified ∧ supervisor.Exclusive)
      (fun supervisor (event : Event) => event.keepsReservations supervisor = true) ?_ ?_ hkeeps
    · intro supervisor event hbefore hevent
      exact ⟨identified_step event hbefore.1,
        exclusive_step event hbefore.1 hbefore.2 hevent⟩
    · exact ⟨Server.identified_start, List.Pairwise.nil⟩
  apply hsound.2.imp
  intro session other hapart hconflict howned
  exact hapart hconflict ⟨Or.inl howned.1, Or.inl howned.2⟩

section Example

def kernelSession (n : Nat) : Session where
  kernelEndpoint := some (.net 50000)
  id := mintSessionId 0 n
  kind := .kernel
  what := "net:port=50000"
  pid := n
  created := 0
  standing := ⟨.opening, 0, {}⟩
  owner := ⟨"local", 0⟩

def attach (n : Nat) : List Event :=
  [.act (.mint 0), .act (.admits (kernelSession n) false none)]

def settle (n : Nat) (state : SessionState) : Event :=
  .act (.transition (mintSessionId 0 n) 0 fun _ claims => (some state, claims))

/-- An `end_session` is under way when the operator hands the worker off; its late
confirmation settles the session before the handoff knows of the exit. -/
def releasedDuringHandoff : List Event :=
  attach 1 ++ [settle 1 .opened,
    settle 1 (.kernelUnresolved "kernel release is in progress; completion is unconfirmed"),
    .checkHandoff (mintSessionId 0 1) 1, .takeHandoff (mintSessionId 0 1),
    .act (.confirmRelease (mintSessionId 0 1)),
    settle 1 (.closed "worker confirmed target release")]

/-- A handoff that fails gives the handle back to the only controller. -/
theorem controllers_exclusive_failed_handoff :
    (run step {} (releasedDuringHandoff ++ [.handoffFailed (mintSessionId 0 1)] ++
      attach 2)).registry.all.Pairwise fun session other =>
        session.conflicts other = true → ¬(session.child = true ∧ other.child = true) :=
  controllers_exclusive (by decide +kernel)

end Example

/-- The endpoint is free while the handle is out, and taken when it comes back. -/
theorem two_controllers :
    ¬∀ events, (run step {} events).registry.all.Pairwise fun session other =>
      session.conflicts other = true → ¬(session.child = true ∧ other.child = true) := by
  intro h
  have hboth : ¬(run step {} (releasedDuringHandoff ++ attach 2 ++
      [.handoffFailed (mintSessionId 0 1)])).registry.all.Pairwise fun session other =>
        session.conflicts other = true → ¬(session.child = true ∧ other.child = true) := by
    decide +kernel
  exact hboth (h _)

end Supervisor

end WindbgMcp.Engine
