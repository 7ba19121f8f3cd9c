import WindbgMcp.Engine.Unresolved

/-! A handle names the target it was opened on.  A command that may change that
target takes the worker over as it is forwarded; whether the handle accepts calls again
is for the worker's refusals to say, and the latest of them is enough because the
worker refuses in order. -/
namespace WindbgMcp.Engine
open Library Threads

namespace Shared

def Refused (shared : Shared) (job : Nat) : Prop :=
  ∃ reply, (job, reply) ∈ shared.replies ∧ reply.isRecoveryRequired = true

def AllRefused (shared : Shared) : Prop :=
  ∀ job ∈ shared.forwarded, job.call.retires = true → shared.Refused job.id

end Shared

/-- The worker refuses in order: while it holds requests back it holds every one of
them but the attach and the preservation, so a refusal comes after the refusals of
everything it read before. -/
def LineAct.RefusesInOrder (line : Line) : LineAct → Prop
  | .emit (.done job reply) => reply.isRecoveryRequired = true →
    ∀ earlier ∈ line.shared.forwarded.takeWhile fun sent => sent.id != job,
      earlier.call.op ≠ .opener → earlier.call.op ≠ .preserveKernel →
        line.shared.Refused earlier.id
  | _ => True

instance (shared : Shared) (job : Nat) : Decidable (shared.Refused job) :=
  decidable_of_iff (∃ answer ∈ shared.replies, answer.1 = job ∧ answer.2.isRecoveryRequired = true)
    ⟨fun ⟨(_, reply), hmem, hjob, hrefused⟩ => ⟨reply, hjob ▸ hmem, hrefused⟩,
      fun ⟨reply, hmem, hrefused⟩ => ⟨(job, reply), hmem, rfl, hrefused⟩⟩

instance (shared : Shared) : Decidable shared.AllRefused :=
  inferInstanceAs (Decidable (∀ job ∈ shared.forwarded,
    job.call.retires = true → shared.Refused job.id))

instance (line : Line) : (act : LineAct) → Decidable (act.RefusesInOrder line)
  | .emit (.done job reply) =>
    inferInstanceAs (Decidable (reply.isRecoveryRequired = true →
      ∀ earlier ∈ line.shared.forwarded.takeWhile fun sent => sent.id != job,
        earlier.call.op ≠ .opener → earlier.call.op ≠ .preserveKernel →
          line.shared.Refused earlier.id))
  | .emit (.committed _) | .emit (.opened _) | .emit (.kdPhase _) | .emit (.targetReplaced _)
  | .admits _ | .start _ _ | .run _ _ | .pump _ | .read | .exit => isTrue trivial

/-! ## Sections that neither claim the worker nor give the handle back -/

/-- The takeover stands as it stood, and a handle is accepted only if it was; the
phases of a managed target come and go by themselves. -/
structure Session.Quiet (session after : Session) : Prop where
  takeover : after.claims.takeover = session.claims.takeover
  accepts : after.state.acceptsHandle = true →
    session.state.acceptsHandle = true ∨ session.kind = .secureKernelKd

namespace Session
variable {session : Session} {now : Nat}

theorem Quiet.of_same {after : Session} (hstanding : after.standing = session.standing) :
    session.Quiet after where
  takeover := congrArg (fun standing => standing.claims.takeover) hstanding
  accepts := by
    unfold state
    rw [hstanding]
    exact Or.inl

theorem transition_quiet {next : Proposal}
    (hclaims : (next session.state session.claims).2.takeover = session.claims.takeover)
    (hnext : ∀ proposed, (next session.state session.claims).1 = some proposed →
      proposed.acceptsHandle = true →
        session.state.acceptsHandle = true ∨ session.kind = .secureKernelKd) :
    session.Quiet (session.transition now next).1 where
  takeover := (congrArg Claims.takeover (transition_claims next)).trans hclaims
  accepts := by
    intro haccepts
    rcases transition_state next with hsame | ⟨proposed, hproposed, _, hstate⟩
    · rw [hsame] at haccepts
      exact Or.inl haccepts
    · rw [hstate] at haccepts
      exact hnext proposed hproposed haccepts

theorem updateState_quiet {next : SessionState → Option SessionState}
    (hnext : ∀ proposed, next session.state = some proposed → proposed.acceptsHandle = true →
      session.state.acceptsHandle = true ∨ session.kind = .secureKernelKd) :
    session.Quiet (session.updateState now next) :=
  transition_quiet rfl hnext

theorem setState_quiet {next : SessionState}
    (hnext : next.acceptsHandle = true → session.kind = .secureKernelKd) :
    session.Quiet (session.setState now next) := by
  apply updateState_quiet
  intro proposed hproposed haccepts
  obtain ⟨rfl, _⟩ := ordinaryMove_some hproposed
  exact Or.inr (hnext haccepts)

theorem failUnclaimed_quiet {claims : Claims} {why : String}
    (hclaims : claims.takeover = session.claims.takeover) :
    session.Quiet (session.failUnclaimed now claims why).1 := by
  have hquiet : session.releaseUnclaimed.Quiet (session.failUnclaimed now claims why).1 := by
    apply transition_quiet
    · exact hclaims
    · intro proposed hproposed haccepts
      dsimp only at hproposed
      split at hproposed
      · rw [← Option.some.inj hproposed] at haccepts
        cases haccepts
      · cases hproposed
  exact ⟨hquiet.takeover, hquiet.accepts⟩

theorem settleUncommitted_quiet {why : String} :
    session.Quiet (session.settleUncommitted now why).1 := by
  unfold settleUncommitted
  split
  · exact .of_same rfl
  · split
    · exact transition_quiet rfl (fun _ hproposed => by cases hproposed)
    · exact failUnclaimed_quiet rfl

theorem releaseUnclaimedKernel_quiet {refusal : EngineError} :
    session.Quiet (session.releaseUnclaimedKernel now refusal).1 := by
  unfold releaseUnclaimedKernel
  split
  · exact transition_quiet rfl (fun _ hproposed => by cases hproposed)
  · exact failUnclaimed_quiet rfl

end Session

theorem StateStep.exec_quiet {shared : Shared} {input : Input} {step : StateStep}
    (hjustified : step.Justified shared) (hstep : ∀ job, step ≠ .refuseTakeover job) :
    shared.session.Quiet (step.exec shared.session input).1 := by
  -- Where the closure proposes only states that accept no handle.
  have hcloses : ∀ {next : SessionState → Option SessionState},
      (∀ proposed, next shared.session.state = some proposed → proposed.acceptsHandle = false) →
        shared.session.Quiet (shared.session.updateState input.now next) := by
    intro next hnext
    apply Session.updateState_quiet
    intro proposed hproposed haccepts
    exact absurd ((hnext proposed hproposed).symm.trans haccepts) (by simp)
  cases step with
  | refuseTakeover job => exact absurd rfl (hstep job)
  | preserveKernel why =>
    apply hcloses
    intro proposed hproposed
    split at hproposed <;> cases hproposed
    rfl
  | preserveLiveControl why =>
    apply hcloses
    intro proposed hproposed
    split at hproposed <;> cases hproposed
    rfl
  | loseLiveControl =>
    apply hcloses
    intro proposed hproposed
    cases hproposed
    rfl
  | preserveCompositeController publicPeerGone why =>
    apply hcloses
    intro proposed hproposed
    (repeat' split at hproposed) <;> cases hproposed
    rfl
  | finishEnd publicPeerGone reason =>
    apply hcloses
    intro proposed hproposed
    split at hproposed <;> cases hproposed
    rfl
  | close reason => exact Session.setState_quiet (fun haccepts => by cases haccepts)
  | showPhase phase => exact Session.setState_quiet (fun _ => hjustified)
  | commitOpening =>
    apply Session.updateState_quiet
    intro proposed hproposed _
    split at hproposed
    · rename_i hopening
      rw [beq_iff_eq.mp hopening]
      exact Or.inl rfl
    · cases hproposed
  | promoteOpened =>
    apply Session.updateState_quiet
    intro proposed hproposed _
    split at hproposed
    · rename_i hopening
      rw [Bool.or_eq_true, beq_iff_eq, beq_iff_eq] at hopening
      rcases hopening with hstate | hstate <;> rw [hstate] <;> exact Or.inl rfl
    · cases hproposed
  | replaceTarget why =>
    apply hcloses
    intro proposed hproposed
    split at hproposed <;> cases hproposed
    rfl
  | settleUncommitted why => exact Session.settleUncommitted_quiet
  | releaseUnclaimedKernel refusal => exact Session.releaseUnclaimedKernel_quiet
  | closeReleased =>
    apply hcloses
    intro proposed hproposed
    cases hproposed
    rfl
  | closeHandedOver =>
    apply hcloses
    intro proposed hproposed
    cases hproposed
    rfl
  | kdPhase phase =>
    simp only [StateStep.exec]
    split <;> exact .of_same rfl
  | settleOpen reply =>
    simp only [StateStep.exec]
    (repeat' split) <;> exact .of_same rfl
  | verifyExit =>
    simp only [StateStep.exec]
    split <;> exact .of_same rfl
  | finishHandoff =>
    simp only [StateStep.exec]
    split <;> exact .of_same rfl
  | _ => exact .of_same rfl

/-! ## The gate -/

namespace Session
variable {session : Session} {now : Nat} {job : Job}

theorem gate_admitted (h : (session.gate now job).2 = none) : session.refuses job.call = none := by
  unfold gate at h
  split at h
  · cases h
  · rename_i hadmitted
    exact hadmitted

theorem gate_of_admitted (h : session.refuses job.call = none) :
    (session.gate now job).1 = (session.transition now fun state claims =>
      (session.forwarding job.call state,
        if job.call.retires then { claims with takeover := some job.id } else claims)).1 := by
  unfold gate
  rw [h]

theorem gate_of_refused (h : (session.gate now job).2 ≠ none) :
    (session.gate now job).1 = session := by
  unfold gate at h ⊢
  split
  · rfl
  · rename_i hadmitted
    rw [hadmitted] at h
    exact absurd rfl h

theorem closingState_acceptsHandle (why : String) :
    (session.closingState why).acceptsHandle = false := by
  unfold closingState
  split <;> rfl

/-- A command that retires the handle is admitted only in a state it can retire. -/
theorem retires_live (hadmitted : session.refuses job.call = none)
    (hretires : job.call.retires = true) :
    session.state.isLive = true ∧ session.kernelUnresolved = false ∧
      session.liveControlUnresolved = false := by
  obtain ⟨hop, hon⟩ := job.call.retiring_debugger hretires
  obtain ⟨hkernel, hgate⟩ := refuses_none hadmitted
  have hfollows : liveBreakFollowsTeardown session.kind session.state job.call.op = false := by
    simp [liveBreakFollowsTeardown, hop]
  rw [hfollows, hop] at hgate
  rw [hop] at hkernel
  obtain ⟨hcontrol, hadmits⟩ := hgate.resolve_left (by simp)
  have hkernel' : session.kernelUnresolved = false := by
    cases h : session.kernelUnresolved with
    | false => rfl
    | true => cases hkernel h
  have hcontrol' : session.liveControlUnresolved = false := by
    cases h : session.liveControlUnresolved with
    | false => rfl
    | true => cases hcontrol h
  refine ⟨?_, hkernel', hcontrol'⟩
  unfold Gate.admits at hadmits
  cases hstate : session.state <;> cases honWhom : job.call.gate.on <;>
    simp_all [SessionState.acceptsHandle, SessionState.acceptsDefault,
      SessionState.acceptsTeardown, SessionState.isRetired, SessionState.isLive]

theorem forwarding_retires (hlive : session.state.isLive = true)
    (hkernel : session.kernelUnresolved = false) (hcontrol : session.liveControlUnresolved = false)
    (hretires : job.call.retires = true) :
    ∃ next, session.forwarding job.call session.state = some next ∧ next.acceptsHandle = false := by
  obtain ⟨why, hwhy⟩ := Option.isSome_iff_exists.mp hretires
  have hretired : session.retirement job.call session.state = some (.retired why) := by
    unfold kernelUnresolved at hkernel
    unfold liveControlUnresolved at hcontrol
    simp [retirement, hwhy, ordinaryMove, hkernel, hcontrol, hlive]
  simp only [forwarding, hretired]
  cases job.call.gate.closes with
  | none => exact ⟨_, rfl, rfl⟩
  | some closing =>
    simp only [Option.getD_some]
    cases hmove : session.ordinaryMove (.retired why) (session.closingState closing) with
    | none => exact ⟨_, rfl, rfl⟩
    | some next =>
      obtain ⟨rfl, _⟩ := ordinaryMove_some hmove
      exact ⟨_, rfl, session.closingState_acceptsHandle closing⟩

theorem gate_retires (hadmitted : (session.gate now job).2 = none)
    (hretires : job.call.retires = true) :
    (session.gate now job).1.claims.takeover = some job.id ∧
      (session.gate now job).1.state.acceptsHandle = false := by
  have hrefuses := gate_admitted hadmitted
  obtain ⟨hlive, hkernel, hcontrol⟩ := retires_live hrefuses hretires
  obtain ⟨next, hnext, haccepts⟩ := forwarding_retires hlive hkernel hcontrol hretires
  rw [gate_of_admitted hrefuses]
  constructor
  · rw [transition_claims]
    simp [hretires]
  · rw [transition_of_live hlive hnext]
    exact haccepts

theorem gate_quiet (h : job.call.retires = true → (session.gate now job).2 ≠ none) :
    session.Quiet (session.gate now job).1 := by
  by_cases hadmitted : (session.gate now job).2 = none
  · have hretires : job.call.retires = false := by
      cases hretires : job.call.retires with
      | false => rfl
      | true => exact absurd hadmitted (h hretires)
    have hnone : job.call.gate.retires = none := Option.isNone_iff_eq_none.mp (by simpa [Call.retires] using hretires)
    rw [gate_of_admitted (gate_admitted hadmitted)]
    apply transition_quiet
    · simp [hretires]
    · intro proposed hproposed haccepts
      obtain ⟨why, _, rfl⟩ := forwarding_of_not_retiring hnone hproposed
      rw [closingState_acceptsHandle] at haccepts
      cases haccepts
  · rw [gate_of_refused hadmitted]
    exact .of_same rfl

/-- A call by handle is let through in a state that accepts the handle, or to a live
controller on its way out. -/
theorem gate_handle (hadmitted : (session.gate now job).2 = none)
    (hon : job.call.gate.on = .handle) :
    session.state.acceptsHandle = true ∨ session.kind.isSecureKernelController = true := by
  rcases (refuses_none (gate_admitted hadmitted)).2 with hfollows | ⟨_, hadmits⟩
  · apply Or.inr
    simp only [liveBreakFollowsTeardown, Bool.and_eq_true, beq_iff_eq] at hfollows
    rw [hfollows.1.1]
    rfl
  · apply Or.inl
    simpa [Gate.admits, hon] using hadmits

end Session

/-! ## A worker that a settlement ends stays nobody's -/

namespace Session
variable {session : Session} {now : Nat}

/-- A session that was failed unclaimed does not move again.  The state a live
controller is preserved in is the one exception. -/
theorem Unclaimed.transition {next : Proposal} (h : session.Unclaimed)
    (hcontroller : session.kind.isSecureKernelController = false)
    (hclaims : (next session.state session.claims).2.takeover = none) :
    (session.transition now next).1.Unclaimed where
  failed := by
    obtain ⟨why, hfailed⟩ := h.failed
    rcases transition_state next with hsame | ⟨proposed, _, hallowed, _⟩
    · exact ⟨why, hsame.trans hfailed⟩
    · have hreleased : (session.kind == .kernel && !session.released) = false := by
        by_cases hkernel : session.kind = .kernel
        · simp [h.released hkernel]
        · simp [hkernel]
      unfold allowed isLive at hallowed
      rw [hfailed, hcontroller, hreleased] at hallowed
      simp [SessionState.isLive, SessionState.isClosed] at hallowed
  released := h.released
  takeover := (congrArg Claims.takeover (transition_claims next)).trans hclaims

theorem Unclaimed.updateState {next : SessionState → Option SessionState} (h : session.Unclaimed)
    (hcontroller : session.kind.isSecureKernelController = false) :
    (session.updateState now next).Unclaimed :=
  h.transition hcontroller h.takeover

theorem Unclaimed.of_flags {after : Session} (h : session.Unclaimed)
    (hgrows : session.Grows after) (hstanding : after.standing = session.standing) :
    after.Unclaimed where
  failed := by
    unfold state
    rw [hstanding]
    exact h.failed
  released := fun hkernel => hgrows.released (h.released (hgrows.kind.symm.trans hkernel))
  takeover := (congrArg (fun standing => standing.claims.takeover) hstanding).trans h.takeover

theorem Unclaimed.failUnclaimed {claims : Claims} {why : String} (h : session.Unclaimed)
    (hcontroller : session.kind.isSecureKernelController = false)
    (hclaims : claims.takeover = none) : (session.failUnclaimed now claims why).1.Unclaimed :=
  (h.of_flags session.releaseUnclaimed_grows rfl).transition hcontroller hclaims

theorem Unclaimed.gate {job : Job} (h : session.Unclaimed)
    (hcontroller : session.kind.isSecureKernelController = false) :
    (session.gate now job).1.Unclaimed := by
  by_cases hadmitted : (session.gate now job).2 = none
  · have hrefuses := gate_admitted hadmitted
    have hretires : job.call.retires = false := by
      cases hretires : job.call.retires with
      | false => rfl
      | true =>
        obtain ⟨why, hfailed⟩ := h.failed
        have hlive := (retires_live hrefuses hretires).1
        rw [hfailed] at hlive
        cases hlive
    rw [gate_of_admitted hrefuses]
    apply h.transition hcontroller
    simp [hretires, h.takeover]
  · rw [gate_of_refused hadmitted]
    exact h

end Session

theorem StateStep.exec_unclaimed {session : Session} {input : Input} {step : StateStep}
    (hcontroller : session.kind.isSecureKernelController = false) (h : session.Unclaimed) :
    (step.exec session input).1.Unclaimed := by
  have hgrows := StateStep.exec_grows session input step
  have hupdate : ∀ next : SessionState → Option SessionState,
      (session.updateState input.now next).Unclaimed := fun _ => h.updateState hcontroller
  cases step with
  | preserveKernel why => exact hupdate _
  | preserveLiveControl why => exact hupdate _
  | loseLiveControl => exact hupdate _
  | preserveCompositeController publicPeerGone why => exact hupdate _
  | finishEnd publicPeerGone reason => exact hupdate _
  | close reason => exact hupdate _
  | showPhase phase => exact hupdate _
  | commitOpening => exact hupdate _
  | promoteOpened => exact hupdate _
  | replaceTarget why => exact hupdate _
  | closeReleased => exact hupdate _
  | closeHandedOver => exact hupdate _
  | refuseTakeover job =>
    have hother : session.claims.takeover ≠ some job := by simp [h.takeover]
    simp only [StateStep.exec, Session.refuseTakeover, if_neg hother]
    exact h
  | settleUncommitted why =>
    simp only [StateStep.exec, Session.settleUncommitted]
    (repeat' split)
    · exact h
    · exact h.transition hcontroller h.takeover
    · exact h.failUnclaimed hcontroller h.takeover
  | releaseUnclaimedKernel refusal =>
    simp only [StateStep.exec, Session.releaseUnclaimedKernel]
    split
    · exact h.transition hcontroller h.takeover
    · exact h.failUnclaimed hcontroller h.takeover
  | kdPhase phase =>
    apply h.of_flags hgrows
    simp only [StateStep.exec]
    split <;> rfl
  | settleOpen reply =>
    apply h.of_flags hgrows
    simp only [StateStep.exec]
    (repeat' split) <;> rfl
  | verifyExit =>
    apply h.of_flags hgrows
    simp only [StateStep.exec]
    split <;> rfl
  | finishHandoff =>
    apply h.of_flags hgrows
    simp only [StateStep.exec]
    split <;> rfl
  | _ => exact h.of_flags hgrows rfl

/-! ## The invariant -/

/-- How the takeover on record, the state, and the worker's answers stand together. -/
structure Shared.Certified (shared : Shared) : Prop where
  replied : ∀ job reply, (job, reply) ∈ shared.replies → job ∈ shared.forwarded.map Job.id
  unread : ∀ job reply, .done job reply ∈ shared.messages → (job, reply) ∈ shared.replies
  /-- No takeover stands: every one there was has been refused. -/
  free : shared.session.claims.takeover = none → shared.AllRefused
  latest : ∀ job, shared.session.claims.takeover = some job → shared.Refused job →
    shared.AllRefused
  /-- The takeover is the latest retiring command that was forwarded. -/
  ordered : ∀ job, shared.session.claims.takeover = some job → job ∈ shared.forwarded.map Job.id →
    ∀ other ∈ shared.forwarded, other.call.retires = true → other.id = job ∨
      other ∈ shared.forwarded.takeWhile fun sent => sent.id != job
  retired : shared.session.claims.takeover.isSome = true →
    shared.session.state.acceptsHandle = false
  controller : shared.session.kind.isSecureKernelController = true →
    shared.session.claims.takeover = none
  writing : ∀ job, shared.pump = .writing job →
    (job.call.retires = true → shared.session.claims.takeover = some job.id) ∧
      (job.call.gate.on = .handle → shared.AllRefused)

def Section.Answerable (shared : Shared) : Section → Prop
  | .state (.refuseTakeover job) => shared.Refused job
  | .state (.kill .settlement) | .state (.take .settlement) =>
    shared.session.Unclaimed ∨ shared.session.kind.isSecureKernelController = true
  | _ => True

section Certified
variable {shared after : Shared}

theorem Shared.Refused.mono {job : Nat} (hreplies : shared.replies ⊆ after.replies)
    (h : shared.Refused job) : after.Refused job := by
  obtain ⟨reply, hmem, hrefused⟩ := h
  exact ⟨reply, hreplies hmem, hrefused⟩

theorem Shared.AllRefused.mono (hforwarded : after.forwarded = shared.forwarded)
    (hreplies : shared.replies ⊆ after.replies) (h : shared.AllRefused) : after.AllRefused := by
  intro job hjob hretires
  rw [hforwarded] at hjob
  exact (h job hjob hretires).mono hreplies

theorem Shared.Certified.allRefused (h : shared.Certified)
    (haccepts : shared.session.state.acceptsHandle = true ∨
      shared.session.kind.isSecureKernelController = true) : shared.AllRefused := by
  apply h.free
  cases haccepts with
  | inr hcontroller => exact h.controller hcontroller
  | inl haccepts =>
    cases htakeover : shared.session.claims.takeover with
    | none => rfl
    | some job =>
      have hretired := h.retired (by simp [htakeover])
      rw [hretired] at haccepts
      cases haccepts

theorem Shared.Certified.quiet (h : shared.Certified)
    (hquiet : shared.session.Quiet after.session)
    (hkind : after.session.kind = shared.session.kind)
    (hforwarded : after.forwarded = shared.forwarded) (hreplies : after.replies = shared.replies)
    (hmessages : ∀ message ∈ after.messages, message ∈ shared.messages)
    (hwriting : ∀ job, after.pump = .writing job →
      (job.call.retires = true → shared.session.claims.takeover = some job.id) ∧
        (job.call.gate.on = .handle → shared.AllRefused)) : after.Certified where
  replied := by
    rw [hforwarded, hreplies]
    exact h.replied
  unread := by
    intro job reply hmem
    rw [hreplies]
    exact h.unread job reply (hmessages _ hmem)
  free := by
    intro hfree
    rw [hquiet.takeover] at hfree
    exact (h.free hfree).mono hforwarded (by simp [hreplies])
  latest := by
    intro job htakeover hrefused
    rw [hquiet.takeover] at htakeover
    exact (h.latest job htakeover (hrefused.mono (by simp [hreplies]))).mono hforwarded
      (by simp [hreplies])
  ordered := by
    rw [hforwarded, hquiet.takeover]
    exact h.ordered
  retired := by
    intro hsome
    rw [hquiet.takeover] at hsome
    have hretired := h.retired hsome
    cases haccepts : after.session.state.acceptsHandle with
    | false => rfl
    | true =>
      rcases hquiet.accepts haccepts with hbefore | hkd
      · exact absurd (hretired.symm.trans hbefore) (by simp)
      · rw [h.controller (by rw [hkd]; rfl)] at hsome
        cases hsome
  controller := by
    rw [hquiet.takeover, hkind]
    exact h.controller
  writing := by
    intro job hpump
    obtain ⟨hretires, hhandle⟩ := hwriting job hpump
    rw [hquiet.takeover]
    exact ⟨hretires, fun hon => (hhandle hon).mono hforwarded (by simp [hreplies])⟩

theorem Shared.not_forwarded_of_queued (hids : shared.jobIds.Nodup) {job : Job}
    (hjob : job ∈ shared.queue ++ shared.pump.writes) :
    job.id ∉ shared.forwarded.map Job.id := by
  intro hforwarded
  have honce := List.nodup_iff_count_le_one.mp hids job.id
  have hpos := List.count_pos_iff.mpr hforwarded
  have hpos' := List.count_pos_iff.mpr (List.mem_map_of_mem (f := Job.id) hjob)
  rw [List.map_append, List.count_append] at hpos'
  rw [Shared.count_jobIds] at honce
  omega

theorem Session.refuseTakeover_takeover (session : Session) (now job : Nat) :
    (session.refuseTakeover now job).1.claims.takeover =
      if session.claims.takeover = some job then none else session.claims.takeover := by
  unfold Session.refuseTakeover
  split
  · split
    · exact congrArg Claims.takeover (Session.transition_claims _)
    · exact congrArg Claims.takeover (Session.transition_claims _)
  · rfl

theorem Shared.Certified.refuseTakeover (h : shared.Certified) (hids : shared.jobIds.Nodup)
    {now job : Nat} (hrefused : shared.Refused job) :
    (shared.onSession (shared.session.refuseTakeover now job).1).Certified := by
  have hkind : (shared.session.refuseTakeover now job).1.kind = shared.session.kind :=
    (shared.session.refuseTakeover_grows now job).kind
  by_cases htakeover : shared.session.claims.takeover = some job
  · have hcleared : (shared.session.refuseTakeover now job).1.claims.takeover = none := by
      rw [Session.refuseTakeover_takeover, if_pos htakeover]
    have hall := h.latest job htakeover hrefused
    refine ⟨h.replied, h.unread, fun _ => hall, ?_, ?_, ?_, fun _ => hcleared, ?_⟩
    · exact fun _ _ _ => hall
    · intro other hother
      rw [Shared.onSession_session, hcleared] at hother
      cases hother
    · intro hsome
      rw [Shared.onSession_session, hcleared] at hsome
      cases hsome
    · intro writing hpump
      refine ⟨?_, fun _ => hall⟩
      intro hretires
      -- The job it names would have to be on its way to the worker and refused by it.
      have hsame := ((h.writing writing hpump).1 hretires).symm.trans htakeover
      obtain ⟨reply, hreplied, _⟩ := hrefused
      have hforwarded := h.replied job reply hreplied
      have hwrites : writing ∈ shared.queue ++ shared.pump.writes := by
        have hpump' : shared.pump = .writing writing := hpump
        simp [hpump', PumpState.writes]
      rw [← Option.some.inj hsame] at hforwarded
      exact absurd hforwarded (Shared.not_forwarded_of_queued hids hwrites)
  · have hsame : (shared.session.refuseTakeover now job).1 = shared.session := by
      simp only [Session.refuseTakeover, if_neg htakeover]
    rw [hsame]
    exact h

theorem refuseOpOnKind_debugger {kind : SessionKind}
    (hcontroller : kind.isSecureKernelController = true) :
    refuseOpOnKind kind .debugger ≠ none := by
  cases kind <;> first | exact Option.some_ne_none _ | cases hcontroller

theorem Shared.Certified.gates (h : shared.Certified) (hids : shared.jobIds.Nodup)
    (hfitting : shared.Fitting) {now : Nat} {job : Job} {rest : List Job}
    (hqueue : shared.queue = job :: rest) : (shared.gateJob now job rest).Certified := by
  have hkind := (shared.session.gate_grows now job).kind
  have hjob : job ∈ shared.queue ++ shared.pump.writes := by simp [hqueue]
  have hunsent := Shared.not_forwarded_of_queued hids hjob
  -- A call by handle is admitted only while every takeover there was has been refused.
  have hhandle : (shared.session.gate now job).2 = none → job.call.gate.on = .handle →
      shared.AllRefused := fun hadmitted hon => h.allRefused (Session.gate_handle hadmitted hon)
  have hwriting : ∀ writing, (shared.gateJob now job rest).pump = .writing writing →
      (shared.session.gate now job).2 = none ∧ writing = job := by
    intro writing hpump
    simp only [Shared.gateJob] at hpump
    split at hpump
    · cases hpump
    · rename_i hadmitted
      exact ⟨hadmitted, (PumpState.writing.inj hpump).symm⟩
  by_cases hretires : (shared.session.gate now job).2 = none ∧ job.call.retires = true
  · obtain ⟨htakeover, haccepts⟩ := Session.gate_retires hretires.1 hretires.2
    refine ⟨h.replied, h.unread, ?_, ?_, ?_, fun _ => haccepts, ?_, ?_⟩
    · intro hfree
      exact absurd (htakeover.symm.trans hfree) (by simp)
    · intro other hother hrefused
      rw [← Option.some.inj (htakeover.symm.trans hother)] at hrefused
      obtain ⟨reply, hreplied, _⟩ := hrefused
      exact absurd (h.replied job.id reply hreplied) hunsent
    · intro other hother hforwarded
      rw [← Option.some.inj (htakeover.symm.trans hother)] at hforwarded
      exact absurd hforwarded hunsent
    · intro hcontroller
      have hfits := hfitting job hjob
      rw [(job.call.retiring_debugger hretires.2).1] at hfits
      have hbefore : shared.session.kind.isSecureKernelController = true := hkind ▸ hcontroller
      exact absurd hfits (refuseOpOnKind_debugger hbefore)
    · intro writing hpump
      obtain ⟨hadmitted, rfl⟩ := hwriting writing hpump
      exact ⟨fun _ => htakeover, hhandle hadmitted⟩
  · refine h.quiet ?_ hkind rfl rfl (fun _ hmem => hmem) ?_
    · exact Session.gate_quiet fun hjobRetires hadmitted => hretires ⟨hadmitted, hjobRetires⟩
    · intro writing hpump
      obtain ⟨hadmitted, rfl⟩ := hwriting writing hpump
      exact ⟨fun hjobRetires => absurd ⟨hadmitted, hjobRetires⟩ hretires, hhandle hadmitted⟩

theorem mem_takeWhile_append {α : Type} {p : α → Bool} {front : List α} (back : List α) {item : α}
    (h : item ∈ front.takeWhile p) : item ∈ (front ++ back).takeWhile p := by
  rw [List.takeWhile_append]
  split
  · exact List.mem_append_left _ ((List.takeWhile_sublist p).subset h)
  · exact h

theorem Shared.Certified.writes (h : shared.Certified) (hids : shared.jobIds.Nodup) {job : Job}
    (hpump : shared.pump = .writing job) :
    ({ shared with forwarded := shared.forwarded ++ [job], pump := .waiting } : Shared).Certified := by
  have hunsent := Shared.not_forwarded_of_queued hids
    (show job ∈ shared.queue ++ shared.pump.writes by simp [hpump, PumpState.writes])
  have hretires := (h.writing job hpump).1
  -- Commands forwarded before are refused as they were, and this one retires nothing.
  have hall : shared.AllRefused → job.call.retires = false →
      ({ shared with forwarded := shared.forwarded ++ [job], pump := .waiting } : Shared).AllRefused := by
    intro hbefore hnot other hother hother'
    rcases List.mem_append.mp hother with hold | hnew
    · exact (hbefore other hold hother').mono (fun _ hmem => hmem)
    · rw [List.mem_singleton.mp hnew, hnot] at hother'
      cases hother'
  have hcases : job.call.retires = true ∧ shared.session.claims.takeover = some job.id ∨
      job.call.retires = false := by
    cases hjob : job.call.retires with
    | true => exact Or.inl ⟨rfl, hretires hjob⟩
    | false => exact Or.inr rfl
  constructor
  · intro other reply hmem
    rw [List.map_append]
    exact List.mem_append_left _ (h.replied other reply hmem)
  · exact h.unread
  · intro hfree
    rcases hcases with ⟨_, htakeover⟩ | hnot
    · exact absurd (htakeover.symm.trans hfree) (by simp)
    · exact hall (h.free hfree) hnot
  · intro other hother hrefused
    have hbefore : shared.Refused other := hrefused.mono fun _ hmem => hmem
    rcases hcases with ⟨_, htakeover⟩ | hnot
    · obtain ⟨reply, hreplied, _⟩ := hbefore
      rw [← Option.some.inj (htakeover.symm.trans hother)] at hreplied
      exact absurd (h.replied job.id reply hreplied) hunsent
    · exact hall (h.latest other hother hbefore) hnot
  · intro latest hlatest hmem other hother hother'
    -- Up to the first request with this id, what was forwarded is still there.
    have hfront : latest ∉ shared.forwarded.map Job.id → other ∈ shared.forwarded →
        other ∈ (shared.forwarded ++ [job]).takeWhile fun sent => sent.id != latest := by
      intro hlatest' hother
      rw [List.takeWhile_append_of_pos]
      · exact List.mem_append_left _ hother
      · intro sent hsent
        rw [bne_iff_ne]
        intro heq
        exact hlatest' (heq ▸ List.mem_map_of_mem hsent)
    rcases List.mem_append.mp hother with hold | hnew
    · by_cases hforwarded : latest ∈ shared.forwarded.map Job.id
      · rcases h.ordered latest hlatest hforwarded other hold hother' with hsame | hearlier
        · exact Or.inl hsame
        · exact Or.inr (mem_takeWhile_append [job] hearlier)
      · exact Or.inr (hfront hforwarded hold)
    · rw [List.mem_singleton] at hnew
      subst hnew
      exact Or.inl (Option.some.inj ((hretires hother').symm.trans hlatest))
  · exact h.retired
  · exact h.controller
  · intro writing hwriting
    cases hwriting

theorem Shared.Certified.replies (h : shared.Certified) {job : Nat} {reply : Reply}
    (hforwarded : job ∈ shared.forwarded.map Job.id)
    (hworker : reply.isRecoveryRequired = true →
      ∀ earlier ∈ shared.forwarded.takeWhile fun sent => sent.id != job,
        earlier.call.op ≠ .opener → earlier.call.op ≠ .preserveKernel →
          shared.Refused earlier.id) :
    ({ shared with
        replies := shared.replies ++ [(job, reply)]
        messages := shared.messages ++ [.done job reply] } : Shared).Certified := by
  have hgrows : shared.replies ⊆ shared.replies ++ [(job, reply)] := List.subset_append_left _ _
  have hall : shared.AllRefused → ({ shared with
      replies := shared.replies ++ [(job, reply)]
      messages := shared.messages ++ [.done job reply] } : Shared).AllRefused := by
    intro hbefore
    refine Shared.AllRefused.mono ?_ ?_ hbefore
    · rfl
    · exact hgrows
  refine ⟨?_, ?_, fun hfree => hall (h.free hfree), ?_, h.ordered, h.retired, h.controller, ?_⟩
  · intro other answer hmem
    rcases List.mem_append.mp hmem with hold | hnew
    · exact h.replied other answer hold
    · cases List.mem_singleton.mp hnew
      exact hforwarded
  · intro other answer hmem
    rcases List.mem_append.mp hmem with hold | hnew
    · exact hgrows (h.unread other answer hold)
    · cases List.mem_singleton.mp hnew
      exact List.mem_append_right _ (List.mem_singleton_self _)
  · intro latest hlatest hrefused
    by_cases hbefore : shared.Refused latest
    · exact hall (h.latest latest hlatest hbefore)
    · obtain ⟨answer, hmem, hanswer⟩ := hrefused
      rcases List.mem_append.mp hmem with hold | hnew
      · exact absurd ⟨answer, hold, hanswer⟩ hbefore
      · cases List.mem_singleton.mp hnew
        intro other hother hretires
        rcases h.ordered job hlatest hforwarded other hother hretires with rfl | hearlier
        · exact ⟨reply, hmem, hanswer⟩
        · have hop := (other.call.retiring_debugger hretires).1
          exact (hworker hanswer other hearlier (by simp [hop]) (by simp [hop])).mono hgrows
  · intro writing hpump
    obtain ⟨hretires, hhandle⟩ := h.writing writing hpump
    exact ⟨hretires, fun hon => hall (hhandle hon)⟩

theorem Shared.PumpMoves.certified (hmoves : shared.PumpMoves after) (h : shared.Certified)
    (hids : shared.jobIds.Nodup) (hfitting : shared.Fitting) : after.Certified := by
  cases hmoves with
  | rests => exact h
  | gates now job rest hpump hqueue => exact h.gates hids hfitting hqueue
  | writes job hpump hconnected => exact h.writes hids hpump
  | turns job reply last hpump =>
    refine h.quiet (.of_same rfl) rfl rfl rfl (fun _ hmem => hmem) ?_
    intro writing hwriting
    cases hwriting
  | responds job reply last hpump =>
    refine h.quiet (.of_same rfl) rfl rfl rfl (fun _ hmem => hmem) ?_
    intro writing hwriting
    cases last <;> cases hwriting
  | stops hpump =>
    refine h.quiet (.of_same rfl) rfl rfl rfl (fun _ hmem => hmem) ?_
    intro writing hwriting
    cases hwriting

/-- What is answerable stays so: answers are not taken back, and a worker that is
being ended is nobody's. -/
theorem Section.Answerable.stable {item : Section}
    (hreplies : shared.replies ⊆ after.replies)
    (hkind : after.session.kind = shared.session.kind)
    (hunclaimed : shared.session.kind.isSecureKernelController = false →
      shared.session.Unclaimed → after.session.Unclaimed)
    (h : item.Answerable shared) : item.Answerable after := by
  have hover : shared.session.Unclaimed ∨ shared.session.kind.isSecureKernelController = true →
      after.session.Unclaimed ∨ after.session.kind.isSecureKernelController = true := by
    intro hbefore
    cases hcontroller : shared.session.kind.isSecureKernelController with
    | true => exact Or.inr (hkind ▸ hcontroller)
    | false =>
      rw [hcontroller] at hbefore
      exact Or.inl (hunclaimed hcontroller (hbefore.resolve_right (by simp)))
  cases item with
  | call step => trivial
  | state step =>
    cases step with
    | refuseTakeover job => exact Shared.Refused.mono hreplies h
    | kill ender =>
      cases ender with
      | settlement => exact hover h
      | _ => trivial
    | take ender =>
      cases ender with
      | settlement => exact hover h
      | _ => trivial
    | _ => trivial

theorem Section.Answerable.elsewhere {item : Section} (h : item.Answerable shared)
    (hsession : after.session = shared.session) (hreplies : after.replies = shared.replies) :
    item.Answerable after := by
  refine h.stable ?_ ?_ ?_
  · exact hreplies ▸ List.Subset.refl _
  · rw [hsession]
  · intro _ hunclaimed
    rw [hsession]
    exact hunclaimed

theorem Section.Answerable.pumped {item : Section} (hmoves : shared.PumpMoves after)
    (h : item.Answerable shared) : item.Answerable after := by
  refine h.stable ?_ hmoves.grows.session.kind ?_
  · cases hmoves <;> exact List.Subset.refl _
  · intro hcontroller hunclaimed
    cases hmoves with
    | gates now job rest hpump hqueue => exact hunclaimed.gate hcontroller
    | responds job reply last hpump => exact hunclaimed.of_flags (.of_same rfl rfl rfl rfl) rfl
    | _ => exact hunclaimed

theorem Shared.Certified.elsewhere (h : shared.Certified)
    (hsession : after.session = shared.session) (hforwarded : after.forwarded = shared.forwarded)
    (hreplies : after.replies = shared.replies) (hmessages : after.messages = shared.messages)
    (hpump : after.pump = shared.pump) : after.Certified := by
  refine h.quiet ?_ ?_ hforwarded hreplies ?_ ?_
  · exact .of_same (congrArg Session.standing hsession)
  · rw [hsession]
  · exact fun message hmem => hmessages ▸ hmem
  · exact fun job hwriting => h.writing job (hpump ▸ hwriting)

theorem Message.sections_answerable {session : Session} {message : Message}
    (hreplied : ∀ job reply, message = .done job reply → (job, reply) ∈ shared.replies) :
    ∀ item ∈ message.sections session, item.Answerable shared := by
  cases message with
  | done job reply =>
    simp only [Message.sections]
    split
    · rename_i hrefused
      rw [Bool.and_eq_true] at hrefused
      have hanswer : shared.Refused job := ⟨reply, hreplied job reply rfl, hrefused.2⟩
      simpa [Section.Answerable] using hanswer
    · simp [Section.Answerable]
  | _ =>
    simp only [Message.sections]
    (repeat' split) <;> simp [Section.Answerable]

theorem CallStep.Moves.standing {input : Input} {step : CallStep} {next : List Section}
    (hmoves : step.Moves shared input after next) :
    after.session.standing = shared.session.standing ∧ after.forwarded = shared.forwarded ∧
      after.replies = shared.replies ∧ after.messages = shared.messages ∧
        after.pump = shared.pump := by
  cases hmoves <;> exact ⟨rfl, rfl, rfl, rfl, rfl⟩

theorem CallStep.Moves.answerable {input : Input} {step : CallStep} {next : List Section}
    (hmoves : step.Moves shared input after next) : ∀ item ∈ next, item.Answerable after := by
  cases hmoves with
  | closes job caller preserve hanswered =>
    cases preserve <;> simp [Session.expired, Section.Answerable]
  | _ => simp [Section.Answerable]

theorem Session.killIfMoved_answerable {settled : Settled}
    (h : settled.moved = true → shared.session.Unclaimed) :
    ∀ item ∈ Session.killIfMoved settled, item.Answerable shared := by
  unfold Session.killIfMoved
  split
  · rename_i hmoved
    simpa [Section.Answerable] using Or.inl (h hmoved)
  · simp

theorem StateStep.exec_answerable {input : Input} {step : StateStep}
    (h : Section.Answerable shared (.state step)) :
    ∀ item ∈ (step.exec shared.session input).2,
      item.Answerable (shared.onSession (step.exec shared.session input).1) := by
  cases step with
  | returned caller reply =>
    cases caller <;> simp only [StateStep.exec, Session.returned, Session.opened,
      Session.releaseReturned] <;> (repeat' split) <;> simp [Section.Answerable]
  | settleVerdict reply =>
    cases reply <;> simp only [StateStep.exec, Session.settleVerdict] <;> (repeat' split) <;>
      simp [Section.Answerable]
  | workerExited =>
    simp only [StateStep.exec, Session.workerExited]
    (repeat' split) <;> simp [Section.Answerable]
  | refuseTakeover job =>
    simp only [StateStep.exec]
    split
    · simp
    · rename_i hover
      apply Session.killIfMoved_answerable
      intro hmoved
      exact Session.refuseTakeover_unclaimed hmoved (by simpa using hover)
  | settleUncommitted why =>
    exact Session.killIfMoved_answerable Session.settleUncommitted_unclaimed
  | releaseUnclaimedKernel refusal =>
    intro item hitem
    simp only [StateStep.exec] at hitem ⊢
    rcases List.mem_append.mp hitem with hkill | hrest
    · exact Session.killIfMoved_answerable Session.releaseUnclaimedKernel_unclaimed item hkill
    · split at hrest <;> simp_all [Section.Answerable]
  | kill ender =>
    simp only [StateStep.exec]
    split
    · simp
    · cases ender <;> simp [Section.Answerable]
      exact h
  | _ =>
    simp only [StateStep.exec]
    (repeat' split) <;> simp [Section.Answerable]

theorem StateStep.exec_certified {input : Input} {step : StateStep} (h : shared.Certified)
    (hids : shared.jobIds.Nodup) (hjustified : step.Justified shared)
    (hanswerable : Section.Answerable shared (.state step)) :
    (shared.onSession (step.exec shared.session input).1).Certified := by
  by_cases hrefuse : ∃ job, step = .refuseTakeover job
  · obtain ⟨job, rfl⟩ := hrefuse
    exact h.refuseTakeover hids hanswerable
  · refine h.quiet ?_ ?_ rfl rfl (fun _ hmem => hmem) h.writing
    · exact StateStep.exec_quiet hjustified fun job heq => hrefuse ⟨job, heq⟩
    · exact (StateStep.exec_grows shared.session input step).kind

theorem Section.exec_certified (input : Input) {item : Section} (hids : shared.jobIds.Nodup)
    (hjustified : item.Justified shared) (h : shared.Certified) (hitem : item.Answerable shared) :
    Sound Shared.Certified (fun shared item => Section.Answerable shared item) shared
      (item.exec input shared).1 (item.exec input shared).2 := by
  cases item with
  | state step =>
    refine ⟨StateStep.exec_certified h hids hjustified hitem, ?_, StateStep.exec_answerable hitem⟩
    intro other hother
    refine Section.Answerable.stable ?_ ?_ ?_ hother
    · exact fun _ hmem => hmem
    · exact (StateStep.exec_grows shared.session input step).kind
    · exact StateStep.exec_unclaimed
  | call step =>
    have hmoves := step.exec_moves shared input
    obtain ⟨hstanding, hforwarded, hreplies, hmessages, hpump⟩ := hmoves.standing
    refine ⟨?_, ?_, hmoves.answerable⟩
    · refine h.quiet (.of_same hstanding) hmoves.session_grows.kind hforwarded hreplies ?_ ?_
      · exact fun message hmem => hmessages ▸ hmem
      · exact fun job hwriting => h.writing job (hpump ▸ hwriting)
    · intro other hother
      refine hother.stable ?_ hmoves.session_grows.kind ?_
      · exact hreplies ▸ List.Subset.refl _
      · exact fun _ hunclaimed => hunclaimed.of_flags hmoves.session_grows hstanding

end Certified

namespace Line

def Certified (line : Line) : Prop :=
  line.Linear Shared.jobIds Section.unsentJob Shared.Drawn ∧ line.Justified ∧
    line.Keeps Shared.Certified fun shared item => Section.Answerable shared item

theorem Moves.certified {line after : Line} {act : LineAct} (hmoves : line.Moves act after)
    (hworker : act.RefusesInOrder line) (h : line.Certified) : after.Certified := by
  obtain ⟨hlinear, hjustified, hkeeps⟩ := h
  have hids : line.shared.jobIds.Nodup := hlinear.once_held .opener
  refine ⟨linear_moves jobIds_conserved hmoves hlinear, hmoves.justified hjustified, ?_⟩
  cases hmoves with
  | stays => exact hkeeps
  | registers hspawned =>
    refine Keeps.put hkeeps ?_ ?_ ?_
    · exact hkeeps.shared.elsewhere rfl rfl rfl rfl rfl
    · exact fun item hitem => hitem.elsewhere rfl rfl
    · simp [Section.Answerable]
  | turnsAway hspawned =>
    refine Keeps.put hkeeps ?_ ?_ ?_
    · exact hkeeps.shared.elsewhere rfl rfl rfl rfl rfl
    · exact fun item hitem => hitem.elsewhere rfl rfl
    · simp [Section.Answerable]
  | starts n entry hregistered hidle =>
    refine Keeps.put hkeeps ?_ ?_ ?_
    · cases entry <;> exact hkeeps.shared.elsewhere rfl rfl rfl rfl rfl
    · intro item hitem
      cases entry <;> exact hitem.elsewhere rfl rfl
    · cases entry <;> simp only [Entry.start] <;> (repeat' split) <;> simp [Section.Answerable]
  | runs party input head rest hprogram =>
    have hhead : head.Justified line.shared :=
      hjustified.pending party head (hprogram ▸ List.mem_cons_self)
    exact Keeps.runs hkeeps hprogram (Section.exec_certified input hids hhead hkeeps.shared)
  | pumps input after hmoves =>
    refine Keeps.onShared hkeeps (hmoves.certified hkeeps.shared hids hjustified.shared) ?_
    intro item hitem
    exact Section.Answerable.pumped hmoves hitem
  | reads message rest hreader hreading hmessages =>
    refine Keeps.put hkeeps ?_ ?_ ?_
    · refine hkeeps.shared.quiet (.of_same rfl) rfl rfl rfl ?_ hkeeps.shared.writing
      intro other hother
      rw [hmessages]
      exact List.mem_cons_of_mem _ hother
    · exact fun item hitem => hitem.elsewhere rfl rfl
    · apply Message.sections_answerable
      intro job reply heq
      apply hkeeps.shared.unread job reply
      rw [hmessages, heq]
      exact List.mem_cons_self
  | ends hreader hreading hmessages hconnected =>
    refine Keeps.put hkeeps hkeeps.shared (fun _ hitem => hitem) ?_
    simp [Section.Answerable]
  | reports message hreport =>
    refine Keeps.onShared hkeeps ?_ fun item hitem => hitem.elsewhere rfl rfl
    have h := hkeeps.shared
    refine ⟨h.replied, ?_, h.free, h.latest, h.ordered, h.retired, h.controller, h.writing⟩
    intro job reply hmem
    rcases List.mem_append.mp hmem with hold | hnew
    · exact h.unread job reply hold
    · exact absurd (List.mem_singleton.mp hnew).symm (hreport job reply)
  | replies job reply hforwarded hfirst =>
    refine Keeps.onShared hkeeps ?_ ?_
    · exact hkeeps.shared.replies hforwarded hworker
    · intro item hitem
      refine hitem.stable (List.subset_append_left _ _) rfl ?_
      exact fun _ hunclaimed => hunclaimed
  | exits =>
    refine Keeps.onShared hkeeps ?_ fun item hitem => hitem.elsewhere rfl rfl
    exact hkeeps.shared.elsewhere rfl rfl rfl rfl rfl

theorem spawned_certified {session : Session} (hclaims : session.claims = {}) :
    (spawned session).Certified := by
  refine ⟨spawned_linear _ _ rfl, justified session [], ?_, ?_⟩
  · have htakeover : (spawned session).shared.session.claims.takeover = none :=
      congrArg Claims.takeover hclaims
    refine ⟨?_, ?_, ?_, ?_, ?_, ?_, fun _ => htakeover, ?_⟩
    · intro job reply hmem
      cases hmem
    · intro job reply hmem
      cases hmem
    · intro _ job hjob
      cases hjob
    · intro _ _ _ job hjob
      cases hjob
    · intro _ _ hmem
      cases hmem
    · intro hsome
      rw [htakeover] at hsome
      cases hsome
    · intro job hpump
      cases hpump
  · intro party item hitem
    cases hitem

theorem run_certified {session : Session} (hclaims : session.claims = {}) {acts : List LineAct}
    (hworker : ∀ visit ∈ visits step (spawned session) acts, visit.2.RefusesInOrder visit.1) :
    (run step (spawned session) acts).Certified := by
  refine run_invariant Line.Certified (fun line act => act.RefusesInOrder line) ?_
    (spawned_certified hclaims) hworker
  intro line act hline hact
  exact (line.step_moves act).certified hact hline

theorem Moves.forwards {line after : Line} {act : LineAct} (hmoves : line.Moves act after)
    {job : Job} (h : after.shared.forwarded = line.shared.forwarded ++ [job]) :
    line.shared.pump = .writing job := by
  have hchanged : after.shared.forwarded ≠ line.shared.forwarded := by
    rw [h]
    simp
  cases hmoves with
  | starts n entry hregistered hidle => cases entry <;> exact absurd rfl hchanged
  | runs party input head rest hprogram =>
    cases head with
    | state step => exact absurd rfl hchanged
    | call step => exact absurd (step.exec_moves line.shared input).standing.2.1 hchanged
  | pumps input after hmoves =>
    cases hmoves with
    | writes written hpump hconnected =>
      rw [List.append_cancel_left h |> List.cons.inj |>.1] at hpump
      exact hpump
    | _ => exact absurd rfl hchanged
  | _ => exact absurd rfl hchanged

/-- Whatever is interleaved, once a command that retires the handle has gone to the
worker, no later call by handle does, unless the worker answered every such command so
far that it did not run it. -/
theorem handle_keeps_target {session : Session} (hspawned : session.Spawned)
    {acts : List LineAct} {act : LineAct}
    (hworker : ∀ visit ∈ visits step (spawned session) acts, visit.2.RefusesInOrder visit.1)
    {job : Job} (hforwards : (step (run step (spawned session) acts) act).shared.forwarded =
      (run step (spawned session) acts).shared.forwarded ++ [job])
    (hhandle : job.call.gate.on = .handle) :
    ∀ earlier ∈ (run step (spawned session) acts).shared.forwarded,
      earlier.call.retires = true →
        (run step (spawned session) acts).shared.Refused earlier.id := by
  have hcertified := (run_certified hspawned.claims hworker).2.2.shared
  have hpump := ((run step (spawned session) acts).step_moves act).forwards hforwards
  exact (hcertified.writing job hpump).2 hhandle

section Example

def submitted (n : Nat) (call : Call) : List LineAct :=
  [LineAct.start n (.call call)] ++ List.replicate 3 (LineAct.run (.caller n) {})

/-- An attach is on its way when a command that may replace the target is queued
behind it; the worker holds that command back. -/
def refusedTakeover : List LineAct :=
  [LineAct.admits true] ++ List.replicate 3 (LineAct.run .opener {}) ++
    submitted 0 (Call.retiring true "a raw `execute` command replaced or released the target") ++
      List.replicate 4 (LineAct.pump {}) ++
        [LineAct.emit (.done 2 (.error (.recoveryRequired "the attach is pending"))), .read,
          .run .reader {}]

/-- The handle accepts calls again, and one of them is forwarded. -/
theorem handle_keeps_target_refusedTakeover :
    (step (run step (spawned remoteKernel)
        (refusedTakeover ++ submitted 1 (Call.named .debugger) ++ [.pump {}])) (.pump {})).shared.forwarded =
      (run step (spawned remoteKernel)
        (refusedTakeover ++ submitted 1 (Call.named .debugger) ++ [.pump {}])).shared.forwarded ++
          [⟨3, Call.named .debugger⟩] ∧
      ∀ earlier ∈ (run step (spawned remoteKernel)
        (refusedTakeover ++ submitted 1 (Call.named .debugger) ++ [.pump {}])).shared.forwarded,
        earlier.call.retires = true → (run step (spawned remoteKernel)
          (refusedTakeover ++ submitted 1 (Call.named .debugger) ++ [.pump {}])).shared.Refused
            earlier.id := by
  have hforwards : (step (run step (spawned remoteKernel)
      (refusedTakeover ++ submitted 1 (Call.named .debugger) ++ [.pump {}])) (.pump {})).shared.forwarded =
    (run step (spawned remoteKernel)
      (refusedTakeover ++ submitted 1 (Call.named .debugger) ++ [.pump {}])).shared.forwarded ++
        [⟨3, Call.named .debugger⟩] := by decide
  exact ⟨hforwards,
    handle_keeps_target remoteKernel_spawned (by decide) hforwards (by decide)⟩

end Example

end Line

end WindbgMcp.Engine
