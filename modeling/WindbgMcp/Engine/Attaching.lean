import WindbgMcp.Engine.Answers
import WindbgMcp.Engine.Takeover

/-! A kernel session while its attach has claimed nothing and its settlement is open, and
what the parties on it may hold meanwhile. -/
namespace WindbgMcp.Engine
open Library Threads

/-- A worker's failure that is no `RecoveryRequired`.  None is a timeout. -/
def Reply.isRefusal : Reply → Bool
  | .ok | .error (.recoveryRequired _) | .error (.timeout _) => false
  | .error _ => true

def Call.isOrdinary (call : Call) : Bool :=
  call.op != .endSession && call.gate.closes == none

/-! ## The session until the refusal is settled -/

structure Session.Attaching (session : Session) : Prop where
  kernel : session.kind = .kernel
  released : session.released = false
  phase : session.phase = .started
  state : session.state = .opening ∨ session.state.isRetired = true ∨
    session.state.isKernelUnresolved = true
  retired : session.state.isRetired = true → session.claims.takeover.isSome = true
  withheld : session.claims.withheld.isSome = true → session.claims.takeover.isSome = true

namespace Session
variable {session : Session} {now : Nat}

theorem Attaching.live (h : session.Attaching) : session.isLive = true := by
  unfold isLive
  rcases h.state with hstate | hstate | hstate
  · rw [hstate]
    rfl
  · cases hcase : session.state <;> simp_all [SessionState.isRetired, SessionState.isLive]
  · cases hcase : session.state <;> simp_all [SessionState.isKernelUnresolved, SessionState.isLive]

theorem Attaching.resolved (h : session.Attaching) : session.liveControlUnresolved = false := by
  unfold liveControlUnresolved
  rcases h.state with hstate | hstate | hstate
  · rw [hstate]
    rfl
  · cases hcase : session.state <;>
      simp_all [SessionState.isRetired, SessionState.isLiveControlUnresolved]
  · cases hcase : session.state <;>
      simp_all [SessionState.isKernelUnresolved, SessionState.isLiveControlUnresolved]

theorem Attaching.of_same {after : Session} (h : session.Attaching)
    (hkind : after.kind = session.kind) (hreleased : after.released = session.released)
    (hphase : after.phase = session.phase) (hstanding : after.standing = session.standing) :
    after.Attaching where
  kernel := hkind.trans h.kernel
  released := hreleased.trans h.released
  phase := hphase.trans h.phase
  state := by
    unfold Session.state
    rw [hstanding]
    exact h.state
  retired := by
    unfold Session.state Session.claims
    rw [hstanding]
    exact h.retired
  withheld := by
    unfold Session.claims
    rw [hstanding]
    exact h.withheld

theorem Attaching.transition {next : Proposal} (h : session.Attaching)
    (hstate : (session.transition now next).1.state = .opening ∨
      (session.transition now next).1.state.isRetired = true ∨
        (session.transition now next).1.state.isKernelUnresolved = true)
    (hretired : (session.transition now next).1.state.isRetired = true →
      (next session.state session.claims).2.takeover.isSome = true)
    (hwithheld : (next session.state session.claims).2.withheld.isSome = true →
      (next session.state session.claims).2.takeover.isSome = true) :
    (session.transition now next).1.Attaching := by
  refine ⟨h.kernel, h.released, h.phase, hstate, ?_, ?_⟩
  · rw [transition_claims]
    exact hretired
  · rw [transition_claims]
    exact hwithheld

theorem Spawned.attaching (h : session.Spawned) (hkernel : session.kind = .kernel) :
    session.Attaching := by
  refine ⟨hkernel, h.released, h.phase, Or.inl h.state, ?_, ?_⟩
  · rw [h.state]
    exact fun hretired => by cases hretired
  · rw [h.claims]
    exact fun hwithheld => by cases hwithheld

structure Holds (session after : Session) : Prop where
  attaching : after.Attaching
  unresolved : after.kernelUnresolved = true → session.kernelUnresolved = true
  withheld : session.claims.withheld.isSome = true → after.claims.withheld.isSome = true
  takeover : after.claims.takeover = session.claims.takeover ∨ after.claims.takeover = none

theorem Holds.of_same {after : Session} (h : session.Attaching)
    (hkind : after.kind = session.kind) (hreleased : after.released = session.released)
    (hphase : after.phase = session.phase) (hstanding : after.standing = session.standing) :
    session.Holds after where
  attaching := h.of_same hkind hreleased hphase hstanding
  unresolved := by
    unfold kernelUnresolved Session.state
    rw [hstanding]
    exact fun h => h
  withheld := by
    unfold Session.claims
    rw [hstanding]
    exact fun h => h
  takeover := by
    unfold Session.claims
    rw [hstanding]
    exact Or.inl rfl

theorem Attaching.failUnclaimed (h : session.Attaching) {claims : Claims} {why : String}
    (hclaims : claims.takeover = none) : (session.failUnclaimed now claims why).1.Unclaimed where
  failed := by
    have hlive : session.releaseUnclaimed.isLive = true := h.live
    refine ⟨why, transition_of_live hlive ?_⟩
    have hstate : session.releaseUnclaimed.state.isLive = true := hlive
    simp only [hstate, if_true]
  released := session.failUnclaimed_released claims why
  takeover := (congrArg Claims.takeover (transition_claims _)).trans hclaims

theorem Attaching.withholds (h : session.Attaching) (now : Nat) (why : String)
    (htakeover : session.claims.takeover.isSome = true) :
    session.Holds
      (session.transition now fun _ claims => (none, { claims with withheld := some why })).1 ∧
    (session.transition now fun _ claims =>
      (none, { claims with withheld := some why })).1.claims.withheld.isSome = true := by
  have hstate : (session.transition now fun _ claims =>
      (none, { claims with withheld := some why })).1.state = session.state := rfl
  refine ⟨⟨?_, fun hunresolved => hunresolved, fun _ => rfl, Or.inl rfl⟩, rfl⟩
  apply h.transition
  · rw [hstate]
    exact h.state
  · exact fun _ => htakeover
  · exact fun _ => htakeover

theorem Attaching.preserveKernel (h : session.Attaching) (now : Nat) (why : String) :
    (session.preserveKernel now why).Attaching ∧
      (session.preserveKernel now why).claims = session.claims := by
  refine ⟨?_, updateState_claims _⟩
  have hkept : (session.preserveKernel now why).state = session.state ∨
      (session.preserveKernel now why).state.isKernelUnresolved = true := by
    refine Or.imp_right ?_ (updateState_state _)
    rintro ⟨proposed, hproposed, _, hafter⟩
    split at hproposed <;> cases hproposed
    exact congrArg SessionState.isKernelUnresolved hafter
  apply h.transition
  · rcases hkept with hsame | hunresolved
    · exact hsame ▸ h.state
    · exact Or.inr (Or.inr hunresolved)
  · intro hretired
    rcases hkept with hsame | hunresolved
    · exact h.retired (hsame ▸ hretired)
    · have hretired' : (session.preserveKernel now why).state.isRetired = true := hretired
      cases hcase : (session.preserveKernel now why).state <;>
        simp_all [SessionState.isKernelUnresolved, SessionState.isRetired]
  · exact h.withheld

theorem Attaching.refuseTakeover (h : session.Attaching) (now job : Nat) :
    (session.refuseTakeover now job).1.Unclaimed ∨
      session.Holds (session.refuseTakeover now job).1 := by
  unfold Session.refuseTakeover
  split
  · cases hwithheld : session.claims.withheld with
    | some why => exact Or.inl (h.failUnclaimed rfl)
    | none =>
      apply Or.inr
      -- The state goes back to the one the opener's milestones imply, or stays unresolved.
      have hopener : session.openerState = .opening := by
        unfold openerState
        rw [h.phase]
      have hstate : (session.transition now fun state claims =>
          (if state.isRetired then some session.openerState else none,
            { claims with takeover := none })).1.state =
          if session.state.isRetired then .opening else session.state := by
        by_cases hretired : session.state.isRetired = true
        · rw [if_pos hretired]
          apply transition_of_live h.live
          simp only [hretired, if_true, hopener]
        · rw [if_neg hretired]
          apply transition_of_none
          simp only [if_neg hretired]
      refine ⟨?_, ?_, ?_, Or.inr (congrArg Claims.takeover (transition_claims _))⟩
      · apply h.transition
        · rw [hstate]
          split
          · exact Or.inl rfl
          · exact h.state
        · rw [hstate]
          split
          · exact fun hopening => by cases hopening
          · exact fun hretired => absurd hretired ‹_›
        · simp [hwithheld]
      · unfold kernelUnresolved
        rw [hstate]
        split
        · exact fun hopening => by cases hopening
        · exact fun hunresolved => hunresolved
      · simp [hwithheld]
  · exact Or.inr (.of_same h rfl rfl rfl rfl)

theorem Attaching.settleUncommitted (h : session.Attaching) (now : Nat) (why : String) :
    (session.settleUncommitted now why).1.Unclaimed ∨
      session.Holds (session.settleUncommitted now why).1 ∧
        (session.kernelUnresolved = false →
          (session.settleUncommitted now why).1.claims.withheld.isSome = true) := by
  unfold Session.settleUncommitted
  split
  · rename_i hunresolved
    refine Or.inr ⟨.of_same h rfl rfl rfl rfl, ?_⟩
    simp_all [h.resolved]
  · split
    · rename_i htaken
      rw [Bool.or_eq_true] at htaken
      have htakeover : session.claims.takeover.isSome = true := by
        rcases htaken with hretired | htakeover
        · exact h.retired hretired
        · exact htakeover
      obtain ⟨hholds, hwithheld⟩ := h.withholds now why htakeover
      exact Or.inr ⟨hholds, fun _ => hwithheld⟩
    · rename_i hfree
      refine Or.inl (h.failUnclaimed ?_)
      simp_all

theorem Attaching.releaseUnclaimedKernel (h : session.Attaching) (now : Nat)
    (refusal : EngineError) :
    (session.releaseUnclaimedKernel now refusal).1.Unclaimed ∨
      session.Holds (session.releaseUnclaimedKernel now refusal).1 ∧
        (session.releaseUnclaimedKernel now refusal).1.claims.withheld.isSome = true := by
  unfold Session.releaseUnclaimedKernel
  split
  · rename_i htaken
    exact Or.inr (h.withholds now _ htaken)
  · rename_i hfree
    exact Or.inl (h.failUnclaimed (by simpa using hfree))

/-- The gate takes the worker over for a command that retires the handle, and otherwise
leaves the session as it was. -/
theorem Attaching.gate (h : session.Attaching) (now : Nat) {job : Job} (hcloses : job.call.gate.closes = none) :
    (session.gate now job).1.Attaching ∧
      ((session.gate now job).1.kernelUnresolved = true → session.kernelUnresolved = true) ∧
        (session.gate now job).1.claims.withheld = session.claims.withheld ∧
          ((session.gate now job).1.claims.takeover = session.claims.takeover ∨
            (session.gate now job).2 = none ∧ job.call.retires = true ∧
              (session.gate now job).1.claims.takeover = some job.id) := by
  by_cases hadmitted : (session.gate now job).2 = none
  · have hrefuses := gate_admitted hadmitted
    have hgate : (session.gate now job).1 = _ := gate_of_admitted hrefuses
    cases hretires : job.call.retires with
    | true =>
      obtain ⟨why, hwhy⟩ := Option.isSome_iff_exists.mp hretires
      obtain ⟨hlive, hkernel, hcontrol⟩ := retires_live hrefuses hretires
      unfold kernelUnresolved at hkernel
      unfold liveControlUnresolved at hcontrol
      have hforwarding : session.forwarding job.call session.state = some (.retired why) := by
        simp [forwarding, retirement, hwhy, hcloses, ordinaryMove, hkernel, hcontrol, hlive]
      have hstate : (session.gate now job).1.state = .retired why := by
        rw [hgate]
        exact transition_of_live hlive hforwarding
      obtain ⟨htakeover, _⟩ := gate_retires hadmitted hretires
      have hwithheld : (session.gate now job).1.claims.withheld = session.claims.withheld := by
        rw [hgate, transition_claims]
        simp [hretires]
      refine ⟨⟨?_, ?_, ?_, ?_, ?_, ?_⟩, ?_, hwithheld, Or.inr ⟨hadmitted, rfl, htakeover⟩⟩
      · rw [hgate]
        exact h.kernel
      · rw [hgate]
        exact h.released
      · rw [hgate]
        exact h.phase
      · rw [hstate]
        exact Or.inr (Or.inl rfl)
      · rw [htakeover]
        exact fun _ => rfl
      · rw [htakeover]
        exact fun _ => rfl
      · unfold kernelUnresolved
        rw [hstate]
        exact fun hunresolved => by cases hunresolved
    | false =>
      have hforwarding : session.forwarding job.call session.state = none := by
        have hnone : job.call.gate.retires = none := by simpa [Call.retires] using hretires
        cases hnext : session.forwarding job.call session.state with
        | none => rfl
        | some next =>
          obtain ⟨why, hwhy, _⟩ := forwarding_of_not_retiring hnone hnext
          rw [hcloses] at hwhy
          cases hwhy
      have hstate : (session.gate now job).1.state = session.state := by
        rw [hgate]
        exact transition_of_none hforwarding
      have hclaims : (session.gate now job).1.claims = session.claims := by
        rw [hgate, transition_claims]
        simp [hretires]
      unfold kernelUnresolved
      rw [hclaims, hstate]
      refine ⟨⟨?_, ?_, ?_, ?_, ?_, ?_⟩, fun hunresolved => hunresolved, rfl, Or.inl rfl⟩
      · rw [hgate]
        exact h.kernel
      · rw [hgate]
        exact h.released
      · rw [hgate]
        exact h.phase
      · rw [hstate]
        exact h.state
      · rw [hstate, hclaims]
        exact h.retired
      · rw [hclaims]
        exact h.withheld
  · rw [gate_of_refused hadmitted]
    exact ⟨h, fun hunresolved => hunresolved, rfl, Or.inl rfl⟩

theorem Attaching.gate_opener (h : session.Attaching) {job : Job}
    (hon : job.call.gate.on = .default) (hrefused : (session.gate now job).2 ≠ none) :
    session.kernelUnresolved = true := by
  cases hunresolved : session.kernelUnresolved with
  | true => rfl
  | false =>
    have hadmits : job.call.gate.admits session.state = true := by
      simp only [Gate.admits, hon, SessionState.acceptsDefault]
      rcases h.state with hstate | hstate | hstate
      · rw [hstate]
        rfl
      · rw [hstate]
        exact Bool.or_true _
      · unfold kernelUnresolved at hunresolved
        rw [hunresolved] at hstate
        cases hstate
    have hrefuses : session.refuses job.call = none := by
      simp [refuses, hunresolved, h.resolved, hadmits]
    unfold Session.gate at hrefused
    rw [hrefuses] at hrefused
    exact absurd rfl hrefused

end Session

/-! ## What the parties hold meanwhile -/

def Reply.Settles (shared : Shared) (reply : Reply) : Prop :=
  reply.isRefusal = true ∨ reply.isOk = false ∧ openerJob ∈ shared.closed

structure Job.Ordinary (job : Job) : Prop where
  call : job.call.isOrdinary = true
  opener : job.id = openerJob → job.call.gate.on = .default

def PumpState.isRunning : PumpState → Bool
  | .waiting | .writing _ | .responding _ _ false => true
  | .responding _ _ true | .stopping | .stopped => false

structure Shared.Attaching (shared : Shared) : Prop where
  session : shared.session.Attaching
  connected : shared.connected = true
  running : shared.pump.isRunning = true
  /-- Nobody preserves the session while the attach's caller waits. -/
  unresolved : shared.session.kernelUnresolved = true → openerJob ∈ shared.closed
  responding : ∀ reply last, shared.pump = .responding openerJob reply last →
    reply.isOk = false ∧ openerJob ∈ shared.closed
  answers : ∀ reply, (openerJob, reply) ∈ shared.answers → reply.Settles shared
  messages : ∀ message ∈ shared.messages, ∃ job reply, message = .done job reply ∧
    job ∈ shared.replies.map Prod.fst ∧ (job = openerJob → reply.isRefusal = true)
  replied : ∀ job ∈ shared.replies.map Prod.fst, job ∈ shared.forwarded.map Job.id
  queued : ∀ job ∈ shared.queue ++ shared.pump.writes, job.Ordinary
  waiters : ∀ waiting ∈ shared.waiters, waiting.ending = false

def Section.Attaching (shared : Shared) : Section → Prop
  | .state (.preserveKernel _) => openerJob ∈ shared.closed
  | .state (.settleOpen reply) | .state (.settleUnresolved reply)
  | .state (.settleVerdict reply) => reply.isRefusal = true
  | .state (.releaseUnclaimedKernel why) => (Reply.error why).isRefusal = true
  | .state (.returned .opening reply) => reply.Settles shared
  | .state (.returned .plain _) | .state (.refuseTakeover _) | .state (.settleUncommitted _)
  | .state (.kill _) | .state (.take _) | .call .notify => True
  | .call (.submit job caller) | .call (.insert job caller) | .call (.send job caller) =>
    job.Ordinary ∧ caller ≠ .releasing ∧ (job.id = openerJob ↔ caller = .opening)
  | .call (.await job caller) => caller ≠ .releasing ∧ (job = openerJob ↔ caller = .opening)
  | .call (.close job caller _) => caller ≠ .releasing ∧ (job = openerJob ↔ caller = .opening) ∧
    (job = openerJob ∨ openerJob ∈ shared.closed)
  | .call (.answer job reply) =>
    job ∈ shared.replies.map Prod.fst ∧ (job = openerJob → reply.isRefusal = true)
  | .call (.deliver job reply) => job = openerJob → reply.isRefusal = true
  | _ => False

section Attaching
variable {shared after : Shared} {input : Input}

theorem Reply.Settles.mono {reply : Reply} (hclosed : shared.closed ⊆ after.closed)
    (h : reply.Settles shared) : reply.Settles after :=
  h.imp_right fun hgone => ⟨hgone.1, hclosed hgone.2⟩

theorem Section.Attaching.mono {item : Section} (hclosed : shared.closed ⊆ after.closed)
    (hreplies : shared.replies.map Prod.fst ⊆ after.replies.map Prod.fst)
    (h : item.Attaching shared) : item.Attaching after := by
  cases item with
  | state step =>
    cases step with
    | preserveKernel why => exact hclosed h
    | returned caller reply =>
      cases caller with
      | opening => exact Reply.Settles.mono hclosed h
      | _ => exact h
    | _ => exact h
  | call step =>
    cases step with
    | close job caller preserve => exact ⟨h.1, h.2.1, h.2.2.imp_right fun hgone => hclosed hgone⟩
    | answer job reply => exact ⟨hreplies h.1, h.2⟩
    | _ => exact h

/-- What a section may do to the session that does not settle it. -/
structure Shared.Holds (shared : Shared) (after : Session) : Prop where
  attaching : after.Attaching
  unresolved : after.kernelUnresolved = true → openerJob ∈ shared.closed
  withheld : shared.session.claims.withheld.isSome = true → after.claims.withheld.isSome = true
  takeover : after.claims.takeover = shared.session.claims.takeover ∨ after.claims.takeover = none

theorem Session.Holds.of_shared {after : Session} (h : shared.session.Holds after)
    (hshared : shared.Attaching) : shared.Holds after :=
  ⟨h.attaching, fun hunresolved => hshared.unresolved (h.unresolved hunresolved), h.withheld,
    h.takeover⟩

theorem StateStep.exec_holds {step : StateStep} (input : Input) (h : shared.Attaching)
    (hstep : Section.Attaching shared (.state step)) :
    (step.exec shared.session input).1.Unclaimed ∨
      shared.Holds (step.exec shared.session input).1 := by
  have hsame : ∀ after : Session, after.kind = shared.session.kind →
      after.released = shared.session.released → after.phase = shared.session.phase →
        after.standing = shared.session.standing → shared.Holds after := by
    intro after hkind hreleased hphase hstanding
    exact (Session.Holds.of_same h.session hkind hreleased hphase hstanding).of_shared h
  cases step with
  | preserveKernel why =>
    obtain ⟨hattaching, hclaims⟩ := h.session.preserveKernel input.now why
    refine Or.inr ⟨hattaching, fun _ => hstep, ?_, Or.inl ?_⟩
    · exact fun hwithheld => hclaims ▸ hwithheld
    · exact congrArg Claims.takeover hclaims
  | refuseTakeover job =>
    exact (h.session.refuseTakeover input.now job).imp_right fun hholds => hholds.of_shared h
  | settleUncommitted why =>
    exact (h.session.settleUncommitted input.now why).imp_right fun hholds => hholds.1.of_shared h
  | releaseUnclaimedKernel why =>
    exact (h.session.releaseUnclaimedKernel input.now why).imp_right fun hholds => hholds.1.of_shared h
  | settleOpen reply =>
    apply Or.inr
    simp only [StateStep.exec]
    (repeat' split) <;> exact hsame _ rfl rfl rfl rfl
  | settleUnresolved reply => exact Or.inr (hsame _ rfl rfl rfl rfl)
  | settleVerdict reply => exact Or.inr (hsame _ rfl rfl rfl rfl)
  | returned caller reply => exact Or.inr (hsame _ rfl rfl rfl rfl)
  | kill ender => exact Or.inr (hsame _ rfl rfl rfl rfl)
  | take ender => exact Or.inr (hsame _ rfl rfl rfl rfl)
  | _ => cases hstep

theorem Session.Attaching.opened {session : Session} (h : session.Attaching) {reply : Reply}
    (hreply : reply.isRefusal = true) :
    ∃ why, session.opened reply = [.state (.settleUncommitted why)] := by
  cases reply with
  | ok => cases hreply
  | error why =>
    refine ⟨why.text, ?_⟩
    cases why with
    | recoveryRequired text => cases hreply
    | timeout text => cases hreply
    | _ => simp [Session.opened, h.phase, OpenPhase.isCommitted]

theorem Session.Attaching.settleVerdict {session : Session} (h : session.Attaching) {reply : Reply}
    (hreply : reply.isRefusal = true) :
    ∃ why, session.settleVerdict reply = [.state (.settleUncommitted why)] := by
  cases reply with
  | ok => cases hreply
  | error why =>
    refine ⟨why.text, ?_⟩
    cases why with
    | recoveryRequired text => cases hreply
    | timeout text => cases hreply
    | _ => simp [Session.settleVerdict, h.phase, OpenPhase.isCommitted, Reply.isRecoveryRequired]

theorem Session.Attaching.opened_next {session : Session} (h : session.Attaching) {reply : Reply}
    (hreply : reply.Settles shared) : ∀ item ∈ session.opened reply, item.Attaching shared := by
  rcases hreply with hrefusal | ⟨hok, hgone⟩
  · obtain ⟨why, hopened⟩ := h.opened hrefusal
    rw [hopened]
    simp [Section.Attaching]
  · cases reply with
    | ok => cases hok
    | error why =>
      unfold Session.opened
      (repeat' split) <;> simp_all [Section.Attaching, h.phase, OpenPhase.isCommitted]

@[simp] theorem Section.attaching_onSession (shared : Shared) (session : Session)
    (item : Section) : item.Attaching (shared.onSession session) ↔ item.Attaching shared := by
  constructor <;> exact Section.Attaching.mono (fun _ h => h) (fun _ h => h)

theorem StateStep.exec_next {step : StateStep} (h : shared.Attaching)
    (hstep : Section.Attaching shared (.state step)) :
    ∀ item ∈ (step.exec shared.session input).2, item.Attaching shared := by
  cases step with
  | returned caller reply =>
    cases caller with
    | plain => simp [StateStep.exec, Session.returned]
    | opening => exact h.session.opened_next hstep
    | releasing => cases hstep
  | settleVerdict reply =>
    obtain ⟨why, hverdict⟩ := h.session.settleVerdict hstep
    simp only [StateStep.exec, hverdict]
    simp [Section.Attaching]
  | settleOpen reply =>
    simp only [StateStep.exec]
    (repeat' split) <;> simpa [Section.Attaching] using hstep
  | releaseUnclaimedKernel why =>
    intro item hitem
    simp only [StateStep.exec] at hitem
    rcases List.mem_append.mp hitem with hkill | hrest
    · unfold Session.killIfMoved at hkill
      split at hkill <;> simp_all [Section.Attaching]
    · split at hrest <;> simp_all [Section.Attaching]
  | settleUnresolved reply =>
    simp only [StateStep.exec]
    split
    · simp
    · simpa [Section.Attaching] using hstep
  | preserveKernel why => simp [StateStep.exec, Section.Attaching]
  | refuseTakeover job =>
    simp only [StateStep.exec, Session.killIfMoved]
    (repeat' split) <;> simp [Section.Attaching]
  | settleUncommitted why =>
    simp only [StateStep.exec, Session.killIfMoved]
    (repeat' split) <;> simp [Section.Attaching]
  | kill ender =>
    simp only [StateStep.exec]
    split <;> simp [Section.Attaching]
  | take ender => simp [StateStep.exec]
  | _ => cases hstep

theorem Shared.answered_mem {job : Nat} {reply : Reply} (h : shared.answered job = some reply) :
    (job, reply) ∈ shared.answers := by
  unfold Shared.answered at h
  obtain ⟨⟨other, sent⟩, hfind, hreply⟩ := Option.map_eq_some_iff.mp h
  have hjob : other = job := beq_iff_eq.mp (List.find?_some hfind :)
  have hsent : sent = reply := hreply
  rw [← hjob, ← hsent]
  exact List.mem_of_find?_eq_some hfind

theorem CallStep.Moves.next_attaching {step : CallStep} {next : List Section}
    (hmoves : step.Moves shared input after next) (h : shared.Attaching)
    (hstep : Section.Attaching shared (.call step))
    (hexpired : input.expired = true → ∀ job caller, step = .await job caller →
      job = openerJob ∨ openerJob ∈ shared.closed) :
    ∀ item ∈ next, item.Attaching after := by
  -- What is returned to the attach's caller is what was sent to it.
  have hreturned : ∀ job caller reply, caller ≠ .releasing → (job = openerJob ↔ caller = .opening) →
      shared.answered job = some reply → Section.Attaching shared (.state (.returned caller reply)) := by
    intro job caller reply hcaller hopener hanswered
    cases caller with
    | plain => trivial
    | releasing => exact absurd rfl hcaller
    | opening =>
      rw [hopener.mpr rfl] at hanswered
      exact h.answers reply (Shared.answered_mem hanswered)
  cases hmoves with
  | submitRefused job caller why hwhy =>
    simp only [List.mem_singleton, forall_eq]
    obtain ⟨_, hcaller, _⟩ := hstep
    cases caller with
    | plain => trivial
    | releasing => exact absurd rfl hcaller
    | opening =>
      rcases hwhy with hunresolved | ⟨text, rfl⟩
      · exact Or.inr ⟨rfl, h.unresolved hunresolved⟩
      · exact Or.inl rfl
  | submits job caller hkind => simpa [Section.Attaching] using hstep
  | inserts job caller => simpa [Section.Attaching] using hstep
  | sends job caller hpumping => simpa [Section.Attaching] using hstep.2
  | awaited job caller reply hanswered =>
    simp only [List.mem_singleton, forall_eq]
    exact hreturned job caller reply hstep.1 hstep.2 hanswered
  | expires job caller hanswered hspent =>
    simp only [List.mem_singleton, forall_eq]
    exact ⟨hstep.1, hstep.2, hexpired hspent job caller rfl⟩
  | awaits job caller hanswered => simpa [Section.Attaching] using hstep
  | closeReturns job caller preserve reply hanswered =>
    simp only [List.mem_singleton, forall_eq]
    exact hreturned job caller reply hstep.1 hstep.2.1 hanswered
  | closes job caller preserve hanswered =>
    obtain ⟨hcaller, _, hlast⟩ := hstep
    have hgone : openerJob ∈ job :: shared.closed := by
      rcases hlast with rfl | hclosed
      · exact List.mem_cons_self
      · exact List.mem_cons_of_mem _ hclosed
    have hsettles : ∀ why, Section.Attaching { shared with closed := job :: shared.closed }
        (.state (.returned caller (.error why))) := by
      intro why
      cases caller with
      | plain => trivial
      | releasing => exact absurd rfl hcaller
      | opening => exact Or.inr ⟨rfl, hgone⟩
    unfold Session.expired
    split
    · intro item hitem
      rcases List.mem_cons.mp hitem with rfl | hrest
      · exact hgone
      · rw [List.mem_singleton.mp hrest]
        exact hsettles _
    · simp only [List.mem_singleton, forall_eq]
      exact hsettles _
  | answers job reply waiting hwaiter => simpa [Section.Attaching] using hstep.2
  | publishes job waiting hwaiter hending =>
    have hnot := h.waiters waiting (List.mem_of_find?_eq_some hwaiter)
    rw [hending] at hnot
    cases hnot
  | settles reply hclosed => simpa [Section.Attaching] using hstep rfl
  | releasePreserved call hkernel => cases hstep
  | releaseSubmits call => cases hstep
  | turnsBack job caller hpumping =>
    have hrunning := h.running
    simp_all [Shared.pumping, PumpState.isRunning]
  | _ => simp

theorem Shared.nextId_ne_opener (shared : Shared) : shared.nextId ≠ openerJob := by
  unfold Shared.nextId
  omega

theorem CallStep.Moves.closed {step : CallStep} {next : List Section}
    (hmoves : step.Moves shared input after next) : shared.closed ⊆ after.closed := by
  cases hmoves with
  | closes job caller preserve hanswered => exact List.subset_cons_self _ _
  | _ => exact List.Subset.refl _

theorem CallStep.Moves.flags {step : CallStep} {next : List Section}
    (hmoves : step.Moves shared input after next) :
    after.session.kind = shared.session.kind ∧ after.session.released = shared.session.released ∧
      after.session.phase = shared.session.phase ∧ after.connected = shared.connected := by
  cases hmoves <;> exact ⟨rfl, rfl, rfl, rfl⟩

theorem CallStep.Moves.attaching {step : CallStep} {next : List Section}
    (hmoves : step.Moves shared input after next) (h : shared.Attaching)
    (hstep : Section.Attaching shared (.call step)) : after.Attaching := by
  obtain ⟨hstanding, hforwarded, hreplies, hmessages, hpump⟩ := hmoves.standing
  obtain ⟨hkind, hreleased, hphase, hconnected⟩ := hmoves.flags
  have hclosed := hmoves.closed
  refine ⟨h.session.of_same hkind hreleased hphase hstanding, hconnected.trans h.connected, ?_, ?_,
    ?_, ?_, ?_, ?_, ?_, ?_⟩
  · rw [hpump]
    exact h.running
  · unfold Session.kernelUnresolved Session.state
    rw [hstanding]
    exact fun hunresolved => hclosed (h.unresolved hunresolved)
  · rw [hpump]
    intro reply last hresponding
    exact (h.responding reply last hresponding).imp_right fun hgone => hclosed hgone
  · intro reply hmem
    cases hmoves with
    | delivers job sent hreceived =>
      rcases List.mem_append.mp hmem with hold | hnew
      · exact h.answers reply hold
      · cases List.mem_singleton.mp hnew
        exact Or.inl (hstep rfl)
    | settles sent hreceived =>
      rcases List.mem_append.mp hmem with hold | hnew
      · exact h.answers reply hold
      · cases List.mem_singleton.mp hnew
        exact Or.inl (hstep rfl)
    | fails why => cases hstep
    | drains => cases hstep
    | _ => exact (h.answers reply hmem).mono hclosed
  · rw [hmessages, hreplies]
    exact h.messages
  · rw [hreplies, hforwarded]
    exact h.replied
  · rw [hpump]
    intro job hjob
    cases hmoves with
    | sends sent caller hpumping =>
      rcases List.mem_append.mp hjob with hqueue | hwriting
      · rcases List.mem_append.mp hqueue with hold | hnew
        · exact h.queued job (List.mem_append_left _ hold)
        · cases List.mem_singleton.mp hnew
          exact hstep.1
      · exact h.queued job (List.mem_append_right _ hwriting)
    | notifies hpumping =>
      rcases List.mem_append.mp hjob with hqueue | hwriting
      · rcases List.mem_append.mp hqueue with hold | hnew
        · exact h.queued job (List.mem_append_left _ hold)
        · cases List.mem_singleton.mp hnew
          exact ⟨rfl, fun hid => absurd hid shared.nextId_ne_opener⟩
      · exact h.queued job (List.mem_append_right _ hwriting)
    | _ => exact h.queued job hjob
  · intro waiting hwaiting
    cases hmoves with
    | inserts job caller =>
      rcases List.mem_cons.mp hwaiting with rfl | hold
      · have hordinary := hstep.1.call
        simp only [Call.isOrdinary, Bool.and_eq_true, bne_iff_ne] at hordinary
        exact beq_false_of_ne hordinary.1
      · exact h.waiters waiting hold
    | turnsBack job caller hpumping => exact h.waiters waiting (Shared.mem_removeWaiter hwaiting).1
    | publishes job _ hwaiter => exact h.waiters waiting (Shared.mem_removeWaiter hwaiting).1
    | answers job reply _ hwaiter => exact h.waiters waiting (Shared.mem_removeWaiter hwaiting).1
    | fails why => cases hwaiting
    | drains => cases hwaiting
    | _ => exact h.waiters waiting hwaiting

theorem Job.Ordinary.closes {job : Job} (h : job.Ordinary) : job.call.gate.closes = none := by
  have hordinary := h.call
  simp only [Call.isOrdinary, Bool.and_eq_true, beq_iff_eq] at hordinary
  exact hordinary.2

theorem Refused.reply_isOk (session : Session) (refused : Refused) :
    (refused.reply session).isOk = false := by
  cases refused <;> rfl

theorem Shared.Attaching.gateJob (h : shared.Attaching) {now : Nat} {job : Job} {rest : List Job}
    (hqueue : shared.queue = job :: rest) : (shared.gateJob now job rest).Attaching := by
  have hordinary := h.queued job (by simp [hqueue])
  obtain ⟨hattaching, hunresolved, _⟩ := h.session.gate now hordinary.closes
  have hrest : ∀ other ∈ rest, other.Ordinary := by
    intro other hother
    exact h.queued other (by simp [hqueue, hother])
  refine ⟨hattaching, h.connected, ?_, ?_, ?_, h.answers, h.messages, h.replied, ?_, ?_⟩
  · simp only [Shared.gateJob]
    split <;> rfl
  · exact fun hafter => h.unresolved (hunresolved hafter)
  · intro reply last hresponding
    simp only [Shared.gateJob] at hresponding
    split at hresponding
    · rename_i refused hrefused
      injection hresponding with hid hreply _
      have hturned : (shared.session.gate now job).2 ≠ none := by simp [hrefused]
      exact ⟨hreply ▸ Refused.reply_isOk _ refused,
        h.unresolved (h.session.gate_opener (hordinary.opener hid) hturned)⟩
    · cases hresponding
  · intro other hother
    rcases List.mem_append.mp hother with hold | hwriting
    · exact hrest other hold
    · simp only [Shared.gateJob] at hwriting
      split at hwriting
      · cases hwriting
      · rw [List.mem_singleton.mp hwriting]
        exact hordinary
  · intro waiting hwaiting
    have hwaiters : (shared.gateJob now job rest).waiters = shared.waiters :=
      shared.session.gate_waiters now job
    rw [hwaiters] at hwaiting
    exact h.waiters waiting hwaiting

theorem Shared.Attaching.respond (h : shared.Attaching) {job : Nat} {reply : Reply}
    (hpump : shared.pump = .responding job reply false) :
    ({ shared.respond job reply with pump := .waiting } : Shared).Attaching := by
  refine ⟨h.session.of_same rfl rfl rfl rfl, h.connected, rfl, h.unresolved, ?_, ?_, h.messages,
    h.replied, ?_, ?_⟩
  · intro _ _ hresponding
    cases hresponding
  · intro other hmem
    rcases List.mem_append.mp hmem with hold | hnew
    · exact h.answers other hold
    · split at hnew
      · cases List.mem_singleton.mp hnew
        exact Or.inr (h.responding reply false hpump)
      · cases hnew
  · intro other hother
    rcases List.mem_append.mp hother with hold | hwriting
    · exact h.queued other (List.mem_append_left _ hold)
    · cases hwriting
  · exact fun waiting hwaiting => h.waiters waiting (Shared.mem_removeWaiter hwaiting).1

end Attaching

end WindbgMcp.Engine
