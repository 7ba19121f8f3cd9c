import WindbgMcp.Engine.Gate

/-! What each party decides about a session in one acquisition of its state lock: the
opener's milestones, the settlements of an open that claimed nothing, the
preservation of a controller whose release is not known, and the ends of teardowns. -/
namespace WindbgMcp.Engine

inductive Reply
  | ok
  | error (why : EngineError)
  deriving DecidableEq, Repr

namespace Reply

def isOk : Reply → Bool
  | .ok => true
  | .error _ => false

def isRecoveryRequired : Reply → Bool
  | .error (.recoveryRequired _) => true
  | _ => false

end Reply

def EngineError.text : EngineError → String
  | .debugger why | .timeout why | .stale why | .lost why | .recoveryRequired why => why

def OpenPhase.reach (phase next : OpenPhase) : OpenPhase :=
  if phase.rank < next.rank then next else phase

namespace Session

/-! ## Preserving a controller -/

def preservedKernel (session : Session) (why : String) : String :=
  "Remote kernel session `" ++ session.id ++ "` is unresolved: " ++ why ++ (". Controller " ++
    "reservation for worker PID ") ++ toString session.pid ++ (" is retained; target liveness and " ++
    "detach are unconfirmed. Do not break in or attach another controller. Inspect the target out " ++
    "of band. An explicit recovery handoff requires end_session with this session_id and " ++
    "kernel_handoff_pid=") ++ toString session.pid ++ " and does NOT resume or detach the target."

def preserveKernel (session : Session) (now : Nat) (why : String) : Session :=
  session.updateState now fun state =>
    if !session.kernelHandoffComplete && !session.released && !state.isKernelUnresolved then
      some (.kernelUnresolved (session.preservedKernel why))
    else none

def preservedLiveControl (session : Session) (why : String) : String :=
  "Live Secure Kernel session `" ++ session.id ++ "` requires recovery: " ++ why ++ ". Worker PID "
    ++ toString session.pid ++ (" will not be terminated automatically because that could discard a " ++
    "fail-closed `vmwp` attachment beside a paused disposable VM. Do not attach another controller. " ++
    "Inspect the VM and worker out of band, or retry `end_session` with this session_id if the " ++
    "worker remains alive.")

def preserveLiveControl (session : Session) (now : Nat) (why : String) : Session :=
  session.updateState now fun state =>
    if !session.released && !state.isLiveControlUnresolved then
      some (.liveControlUnresolved (session.preservedLiveControl why))
    else none

def lostLiveControl (session : Session) : String :=
  "Live Secure Kernel session `" ++ session.id ++ "` lost worker PID " ++ toString session.pid ++
    (" without confirmation of VTL1 restoration and handled detach. The disposable VM may remain " ++
    "paused; inspect it out of band and do not attach another controller until ownership is " ++
    "resolved.")

def loseLiveControl (session : Session) (now : Nat) : Session :=
  session.updateState now fun _ => some (.liveControlUnresolved session.lostLiveControl)

/-- `publicPeerGone` was read before the lock is taken. -/
def preserveCompositeController (session : Session) (now : Nat) (publicPeerGone : Bool)
    (why : String) : Session :=
  session.updateState now fun state =>
    if state.isKernelUnresolved then none
    else if state.isLive || (publicPeerGone && state.isClosed) then
      some (.liveControlUnresolved why)
    else none

/-! ## Ends of teardowns -/

def finishEnd (session : Session) (now : Nat) (publicPeerGone : Bool) (reason : String) :
    Session :=
  session.updateState now fun state =>
    if state == .closed endSessionClosing || (publicPeerGone && state.isLiveControlUnresolved) then
      some (.closed reason)
    else none

def closeAs (session : Session) (now : Nat) (reason : String) : Session :=
  session.updateState now fun _ => some (.closed reason)

def releasedReason : String := "worker confirmed target release"

def handoffReason : String := "explicit kernel recovery handoff; NOT a confirmed detach"

/-! ## The opener's milestones -/

def openerState (session : Session) : SessionState :=
  match session.phase with
  | .started => .opening
  | .committed => .attaching
  | .opened => .opened

def reach (session : Session) (phase : OpenPhase) : Session :=
  { session with phase := session.phase.reach phase }

def promoteOpened (session : Session) (now : Nat) : Session :=
  session.updateState now fun state =>
    if state == .opening || state == .attaching then some .opened else none

def commitOpening (session : Session) (now : Nat) : Session :=
  session.updateState now fun state => if state == .opening then some .attaching else none

def replaceTarget (session : Session) (now : Nat) (why : String) : Session :=
  session.updateState now fun state =>
    if state == .opening || state == .attaching || state == .opened then some (.retired why)
    else none

/-! ## Settling an open that claimed nothing -/

def releaseUnclaimed (session : Session) : Session :=
  { session with released := session.released || session.kind == .kernel }

/-- The failure of an open that claimed nothing, with the claims as its caller leaves
them.  A kernel session is marked released whether or not its state still moves. -/
def failUnclaimed (session : Session) (now : Nat) (claims : Claims) (why : String) :
    Session × Settled :=
  session.releaseUnclaimed.transition now fun state _ =>
    (if state.isLive then some (.failed why) else none, claims)

def settleUncommitted (session : Session) (now : Nat) (why : String) : Session × Settled :=
  if session.kernelUnresolved || session.liveControlUnresolved then
    (session, ⟨session.state, false⟩)
  else if session.state.isRetired || session.claims.takeover.isSome then
    session.transition now fun _ claims => (none, { claims with withheld := some why })
  else session.failUnclaimed now session.claims why

def refusedAfterDeadline (refusal : EngineError) : String :=
  "the attach was refused before it claimed a target, after its caller had stopped waiting: " ++
    refusal.text

/-- Unlike `settleUncommitted` this does not stop at an unresolved kernel: the refusal
is the outcome that was unknown. -/
def releaseUnclaimedKernel (session : Session) (now : Nat) (refusal : EngineError) :
    Session × Settled :=
  if session.claims.takeover.isSome then
    session.transition now fun _ claims =>
      (none, { claims with withheld := some (refusedAfterDeadline refusal) })
  else session.failUnclaimed now session.claims (refusedAfterDeadline refusal)

/-- The worker refused job `job` without running it.  Where that job is the takeover,
it took nothing over: a settlement withheld for it applies now, and otherwise the
retirement made for it is undone. -/
def refuseTakeover (session : Session) (now : Nat) (job : Nat) : Session × Settled :=
  if session.claims.takeover = some job then
    match session.claims.withheld with
    | some why => session.failUnclaimed now {} why
    | none =>
      session.transition now fun state claims =>
        (if state.isRetired then some session.openerState else none,
          { claims with takeover := none })
  else (session, ⟨session.state, false⟩)

/-! ## What one acquisition of the state lock can do -/

section Acquisition
variable {session : Session} {now : Nat}

/-- The claims are as the closure leaves them, and the state is as it was or as the
closure proposes. -/
theorem restand_cases (session : Session) (now : Nat) (next : Proposal) :
    (session.restand now next).1.claims = (next session.state session.claims).2 ∧
      ((session.restand now next).1.state = session.state ∧
          (session.restand now next).2 = ⟨session.state, false⟩ ∨
        ∃ proposed, (next session.state session.claims).1 = some proposed ∧
          session.allowed (some proposed) = true ∧
          (session.restand now next).1.state = proposed ∧
          (session.restand now next).2 = ⟨proposed, proposed != session.state⟩) := by
  unfold restand
  rcases hnext : next session.state session.claims with ⟨proposed, claims⟩
  cases proposed with
  | none => exact ⟨rfl, Or.inl ⟨rfl, rfl⟩⟩
  | some proposed =>
    simp only
    split
    · rename_i hallowed
      exact ⟨rfl, Or.inr ⟨proposed, rfl, hallowed, rfl, rfl⟩⟩
    · exact ⟨rfl, Or.inl ⟨rfl, rfl⟩⟩

theorem transition_claims (next : Proposal) :
    (session.transition now next).1.claims = (next session.state session.claims).2 :=
  (restand_cases session now next).1

theorem transition_state (next : Proposal) :
    (session.transition now next).1.state = session.state ∨
      ∃ proposed, (next session.state session.claims).1 = some proposed ∧
        session.allowed (some proposed) = true ∧
        (session.transition now next).1.state = proposed := by
  rcases (session.restand_cases now next).2 with hsame | ⟨proposed, hnext, hok, hstate, _⟩
  · exact Or.inl hsame.1
  · exact Or.inr ⟨proposed, hnext, hok, hstate⟩

theorem transition_of_live {next : Proposal} {proposed : SessionState}
    (hlive : session.isLive = true)
    (hproposed : (next session.state session.claims).1 = some proposed) :
    (session.transition now next).1.state = proposed := by
  have hallowed : session.allowed (some proposed) = true := by simp [allowed, hlive]
  rcases hnext : next session.state session.claims with ⟨move, claims⟩
  rw [hnext] at hproposed
  cases hproposed
  have hstanding : (session.restand now next).1 = ⟨proposed, now, claims⟩ := by
    simp only [restand, hnext, hallowed, if_true]
  exact congrArg Standing.state hstanding

theorem transition_of_none {next : Proposal} (h : (next session.state session.claims).1 = none) :
    (session.transition now next).1.state = session.state := by
  rcases transition_state next with hsame | ⟨proposed, hproposed, _⟩
  · exact hsame
  · rw [h] at hproposed
    cases hproposed

theorem transition_settled (next : Proposal) :
    (session.transition now next).2.state = (session.transition now next).1.state ∧
      ((session.transition now next).2.moved = true →
        ∃ proposed, (next session.state session.claims).1 = some proposed ∧
          (session.transition now next).1.state = proposed) := by
  rcases (session.restand_cases now next).2 with ⟨hstate, hsettled⟩ |
    ⟨proposed, hnext, _, hstate, hsettled⟩
  · constructor
    · exact (congrArg Settled.state hsettled).trans hstate.symm
    · intro hmoved
      exact absurd ((congrArg Settled.moved hsettled).symm.trans hmoved) (by simp)
  · constructor
    · exact (congrArg Settled.state hsettled).trans hstate.symm
    · exact fun _ => ⟨proposed, hnext, hstate⟩

theorem updateState_claims (next : SessionState → Option SessionState) :
    (session.updateState now next).claims = session.claims :=
  transition_claims _

theorem updateState_state (next : SessionState → Option SessionState) :
    (session.updateState now next).state = session.state ∨
      ∃ proposed, next session.state = some proposed ∧
        session.allowed (some proposed) = true ∧
        (session.updateState now next).state = proposed :=
  transition_state _

theorem ordinaryMove_some {state next moved : SessionState}
    (h : session.ordinaryMove state next = some moved) :
    moved = next ∧ state.isLive = true ∧
      (session.released = false → next.isKernelUnresolved = false →
        next.isLiveControlUnresolved = false →
          state.isKernelUnresolved = false ∧ state.isLiveControlUnresolved = false) := by
  unfold ordinaryMove at h
  split at h
  · cases h
  · rename_i hheld
    split at h
    · rename_i hlive
      cases h
      refine ⟨rfl, hlive, ?_⟩
      intro hreleased hkernel hcontrol
      simpa [hreleased, hkernel, hcontrol] using hheld
    · cases h

end Acquisition

/-! ## Settlements that end a worker -/

structure Unclaimed (session : Session) : Prop where
  failed : ∃ why, session.state = .failed why
  released : session.kind = .kernel → session.released = true
  takeover : session.claims.takeover = none

section Ends
variable {session : Session} {now : Nat}

theorem failUnclaimed_released (claims : Claims) (why : String) (hkernel : session.kind = .kernel) :
    (session.failUnclaimed now claims why).1.released = true := by
  have hflag : (session.failUnclaimed now claims why).1.released =
      (session.released || session.kind == .kernel) := rfl
  rw [hflag, hkernel]
  simp

theorem failUnclaimed_unclaimed {claims : Claims} {why : String} (hclaims : claims.takeover = none)
    (hmoved : (session.failUnclaimed now claims why).2.moved = true) :
    (session.failUnclaimed now claims why).1.Unclaimed where
  failed := by
    obtain ⟨proposed, hproposed, hstate⟩ := (transition_settled _).2 hmoved
    have hfailed : proposed = .failed why := by
      dsimp only at hproposed
      split at hproposed
      · exact (Option.some.inj hproposed).symm
      · cases hproposed
    exact ⟨why, hstate.trans hfailed⟩
  released := session.failUnclaimed_released claims why
  takeover := (congrArg Claims.takeover (transition_claims _)).trans hclaims

theorem settleUncommitted_unclaimed {why : String}
    (hmoved : (session.settleUncommitted now why).2.moved = true) :
    (session.settleUncommitted now why).1.Unclaimed := by
  unfold settleUncommitted at hmoved ⊢
  split at hmoved
  · cases hmoved
  · rename_i hresolved
    rw [if_neg hresolved]
    split at hmoved
    · cases hmoved
    · rename_i hfree
      rw [if_neg hfree]
      exact failUnclaimed_unclaimed (by simp_all) hmoved

theorem releaseUnclaimedKernel_unclaimed {refusal : EngineError}
    (hmoved : (session.releaseUnclaimedKernel now refusal).2.moved = true) :
    (session.releaseUnclaimedKernel now refusal).1.Unclaimed := by
  unfold releaseUnclaimedKernel at hmoved ⊢
  split at hmoved
  · cases hmoved
  · rename_i hfree
    rw [if_neg hfree]
    exact failUnclaimed_unclaimed (by simpa using hfree) hmoved

/-- A refused takeover that ends the worker does so by the settlement withheld for it. -/
theorem refuseTakeover_unclaimed {job : Nat}
    (hmoved : (session.refuseTakeover now job).2.moved = true)
    (hover : (session.refuseTakeover now job).2.state.isLive = false) :
    (session.refuseTakeover now job).1.Unclaimed := by
  unfold refuseTakeover at hmoved hover ⊢
  split at hmoved
  · rename_i htakeover
    rw [if_pos htakeover] at hover ⊢
    split at hmoved
    · exact failUnclaimed_unclaimed rfl hmoved
    · rename_i hwithheld
      rw [hwithheld] at hover
      obtain ⟨proposed, hproposed, hstate⟩ := (transition_settled _).2 hmoved
      dsimp only at hproposed hover
      rw [(transition_settled _).1, hstate] at hover
      split at hproposed
      · rw [← Option.some.inj hproposed] at hover
        unfold openerState at hover
        split at hover <;> cases hover
      · cases hproposed
  · cases hmoved

end Ends

end Session

end WindbgMcp.Engine
