import WindbgMcp.Engine.Calls

/-! An unresolved remote kernel is sticky, and its worker is ended only once the
release is on record.  Both rest on what each pending section of each party may take
for granted, whatever the other parties do in between. -/
namespace WindbgMcp.Engine
open Library Threads

/-! ## What only grows -/

structure Session.Grows (session after : Session) : Prop where
  kind : after.kind = session.kind
  pid : after.pid = session.pid
  released : session.released = true → after.released = true
  handoff : session.kernelHandoffComplete = true → after.kernelHandoffComplete = true

namespace Session
variable (session : Session) (now : Nat)

theorem Grows.of_same {session after : Session} (hkind : after.kind = session.kind)
    (hpid : after.pid = session.pid) (hreleased : after.released = session.released)
    (hhandoff : after.kernelHandoffComplete = session.kernelHandoffComplete) :
    session.Grows after :=
  ⟨hkind, hpid, hreleased.trans, hhandoff.trans⟩

theorem releaseUnclaimed_grows : session.Grows session.releaseUnclaimed where
  kind := rfl
  pid := rfl
  released := by
    intro hreleased
    simp [releaseUnclaimed, hreleased]
  handoff := fun hhandoff => hhandoff

theorem failUnclaimed_grows (claims : Claims) (why : String) :
    session.Grows (session.failUnclaimed now claims why).1 :=
  ⟨rfl, rfl, session.releaseUnclaimed_grows.released, fun hhandoff => hhandoff⟩

theorem settleUncommitted_grows (why : String) :
    session.Grows (session.settleUncommitted now why).1 := by
  unfold settleUncommitted
  split
  · exact .of_same rfl rfl rfl rfl
  · split
    · exact .of_same rfl rfl rfl rfl
    · exact session.failUnclaimed_grows now _ why

theorem releaseUnclaimedKernel_grows (refusal : EngineError) :
    session.Grows (session.releaseUnclaimedKernel now refusal).1 := by
  unfold releaseUnclaimedKernel
  split
  · exact .of_same rfl rfl rfl rfl
  · exact session.failUnclaimed_grows now _ _

theorem refuseTakeover_grows (job : Nat) : session.Grows (session.refuseTakeover now job).1 := by
  unfold refuseTakeover
  split
  · split
    · exact session.failUnclaimed_grows now _ _
    · exact .of_same rfl rfl rfl rfl
  · exact .of_same rfl rfl rfl rfl

theorem gate_grows (job : Job) : session.Grows (session.gate now job).1 := by
  unfold gate
  split <;> exact .of_same rfl rfl rfl rfl

end Session

theorem StateStep.exec_grows (session : Session) (input : Input) (step : StateStep) :
    session.Grows (step.exec session input).1 := by
  cases step with
  | kdPhase phase =>
    simp only [StateStep.exec]
    split
    · exact ⟨rfl, rfl, fun h => by simp [h], id⟩
    · exact .of_same rfl rfl rfl rfl
  | refuseTakeover job => exact session.refuseTakeover_grows input.now job
  | settleUncommitted why => exact session.settleUncommitted_grows input.now why
  | settleOpen reply =>
    simp only [StateStep.exec]
    (repeat' split) <;> exact .of_same rfl rfl rfl rfl
  | releaseUnclaimedKernel refusal => exact session.releaseUnclaimedKernel_grows input.now refusal
  | confirmRelease => exact ⟨rfl, rfl, fun _ => rfl, id⟩
  | publishRelease job => exact ⟨rfl, rfl, fun _ => rfl, id⟩
  | verifyExit =>
    simp only [StateStep.exec]
    split <;> exact .of_same rfl rfl rfl rfl
  | handOver => exact ⟨rfl, rfl, id, fun _ => rfl⟩
  | finishHandoff =>
    simp only [StateStep.exec]
    split <;> exact .of_same rfl rfl rfl rfl
  | _ => exact .of_same rfl rfl rfl rfl

structure Shared.Grows (shared after : Shared) : Prop where
  session : shared.session.Grows after.session
  turnedAway : shared.admission = .turnedAway → after.admission = .turnedAway

theorem CallStep.Moves.session_grows {shared after : Shared} {input : Input} {step : CallStep}
    {next : List Section} (hmoves : step.Moves shared input after next) :
    shared.session.Grows after.session := by
  cases hmoves <;> exact .of_same rfl rfl rfl rfl

theorem Section.exec_grows (input : Input) (shared : Shared) (item : Section) :
    shared.Grows (item.exec input shared).1 where
  session := by
    cases item with
    | state step => exact StateStep.exec_grows shared.session input step
    | call step => exact (step.exec_moves shared input).session_grows
  turnedAway := (item.exec_admission input shared).trans

theorem Shared.PumpMoves.grows {shared after : Shared} (hmoves : shared.PumpMoves after) :
    shared.Grows after := by
  cases hmoves with
  | gates now job rest hpump hqueue => exact ⟨shared.session.gate_grows now job, fun h => h⟩
  | _ => exact ⟨.of_same rfl rfl rfl rfl, fun h => h⟩

/-! ## What a pending section may take for granted -/

@[grind =] def StateStep.Justified (shared : Shared) : StateStep → Prop
  | .preserveKernel _ => shared.session.kind = .kernel
  | .preserveLiveControl _ | .loseLiveControl =>
    shared.session.kind.isSecureKernelController = true
  | .preserveCompositeController true _ | .finishEnd true _ =>
    shared.session.releaseOrHandoffVerified = true
  | .showPhase _ => shared.session.kind = .secureKernelKd
  | .closeReleased => shared.session.released = true
  | .finishHandoff | .closeHandedOver => shared.session.kernelHandoffComplete = true
  | .takeForHandoff pid => pid = shared.session.pid
  | .kill .turnedAway | .take .turnedAway => shared.admission = .turnedAway
  | .kill _ | .take _ => shared.session.kind = .kernel → shared.session.released = true
  | _ => True

def Section.Justified (shared : Shared) : Section → Prop
  | .state step => step.Justified shared
  | .call (.insert job _) | .call (.send job _) =>
    refuseOpOnKind shared.session.kind job.call.op = none
  | .call (.close _ _ true) => shared.session.kind = .kernel
  | .call _ => True

def Shared.Fitting (shared : Shared) : Prop :=
  ∀ job ∈ shared.queue ++ shared.pump.writes,
    refuseOpOnKind shared.session.kind job.call.op = none

theorem Session.Grows.verified {session after : Session} (h : session.Grows after)
    (hverified : session.releaseOrHandoffVerified = true) :
    after.releaseOrHandoffVerified = true := by
  unfold Session.releaseOrHandoffVerified at hverified ⊢
  rw [Bool.or_eq_true] at hverified ⊢
  exact hverified.imp h.released h.handoff

theorem StateStep.Justified.grows {shared after : Shared} {step : StateStep}
    (hgrows : shared.Grows after) (h : step.Justified shared) : step.Justified after := by
  have hkind := hgrows.session.kind
  cases step with
  | preserveKernel why => exact hkind.trans h
  | preserveLiveControl why => exact (congrArg _ hkind).trans h
  | loseLiveControl => exact (congrArg _ hkind).trans h
  | preserveCompositeController publicPeerGone why =>
    cases publicPeerGone
    · trivial
    · exact hgrows.session.verified h
  | finishEnd publicPeerGone reason =>
    cases publicPeerGone
    · trivial
    · exact hgrows.session.verified h
  | showPhase phase => exact hkind.trans h
  | closeReleased => exact hgrows.session.released h
  | finishHandoff => exact hgrows.session.handoff h
  | closeHandedOver => exact hgrows.session.handoff h
  | takeForHandoff pid => exact Eq.trans h hgrows.session.pid.symm
  | kill ender =>
    cases ender with
    | turnedAway => exact hgrows.turnedAway h
    | _ => exact fun hkernel => hgrows.session.released (h (hkind.symm.trans hkernel))
  | take ender =>
    cases ender with
    | turnedAway => exact hgrows.turnedAway h
    | _ => exact fun hkernel => hgrows.session.released (h (hkind.symm.trans hkernel))
  | _ => trivial

theorem Section.Justified.grows {shared after : Shared} {item : Section}
    (hgrows : shared.Grows after) (h : item.Justified shared) : item.Justified after := by
  cases item with
  | state step => exact StateStep.Justified.grows hgrows h
  | call step =>
    have hkind := hgrows.session.kind
    cases step with
    | insert job caller => exact (congrArg (refuseOpOnKind · job.call.op) hkind).trans h
    | send job caller => exact (congrArg (refuseOpOnKind · job.call.op) hkind).trans h
    | close job caller preserve =>
      cases preserve
      · trivial
      · exact hkind.trans h
    | _ => trivial

/-! ## What follows a section is justified -/

theorem Session.returned_justified {shared : Shared} (reply : Reply) (caller : Caller) :
    ∀ item ∈ shared.session.returned reply caller, item.Justified shared := by
  cases caller <;> simp only [Session.returned, Session.opened, Session.releaseReturned] <;>
    (repeat' split) <;> simp_all [Section.Justified, StateStep.Justified]

theorem Session.settleVerdict_justified {shared : Shared} (reply : Reply) :
    ∀ item ∈ shared.session.settleVerdict reply, item.Justified shared := by
  cases reply <;> simp only [Session.settleVerdict] <;>
    (repeat' split) <;> simp_all [Section.Justified, StateStep.Justified]

theorem Session.workerExited_justified {shared : Shared} :
    ∀ item ∈ shared.session.workerExited, item.Justified shared := by
  unfold Session.workerExited
  (repeat' split) <;> simp_all [Section.Justified, StateStep.Justified]

theorem Session.killIfMoved_justified {shared : Shared} {settled : Settled}
    (h : settled.moved = true → shared.session.Unclaimed) :
    ∀ item ∈ Session.killIfMoved settled, item.Justified shared := by
  unfold Session.killIfMoved
  split
  · rename_i hmoved
    simpa [Section.Justified, StateStep.Justified] using (h hmoved).released
  · simp

theorem StateStep.exec_justified {shared : Shared} {input : Input} {step : StateStep}
    (h : step.Justified shared) :
    ∀ item ∈ (step.exec shared.session input).2,
      item.Justified (shared.onSession (step.exec shared.session input).1) := by
  cases step with
  | returned caller reply => exact Session.returned_justified reply caller
  | settleVerdict reply => exact Session.settleVerdict_justified reply
  | workerExited => exact Session.workerExited_justified
  | refuseTakeover job =>
    simp only [StateStep.exec]
    split
    · simp
    · rename_i hover
      apply Session.killIfMoved_justified
      intro hmoved
      exact Session.refuseTakeover_unclaimed hmoved (by simpa using hover)
  | settleUncommitted why =>
    exact Session.killIfMoved_justified Session.settleUncommitted_unclaimed
  | releaseUnclaimedKernel refusal =>
    intro item hitem
    simp only [StateStep.exec] at hitem ⊢
    rcases List.mem_append.mp hitem with hkill | hrest
    · exact Session.killIfMoved_justified Session.releaseUnclaimedKernel_unclaimed item hkill
    · split at hrest <;> simp_all [Section.Justified, StateStep.Justified]
  | kill ender =>
    simp only [StateStep.exec]
    split
    · simp
    · cases ender <;> simpa [Section.Justified, StateStep.Justified] using h
  | settleOpen reply =>
    simp only [StateStep.exec]
    (repeat' split) <;> simp [Section.Justified, StateStep.Justified]
  | compositeFailed why =>
    simp only [StateStep.exec, List.mem_singleton, forall_eq]
    cases hverified : shared.session.releaseOrHandoffVerified
    · trivial
    · exact hverified
  | ended reason =>
    simp only [StateStep.exec, List.mem_singleton, forall_eq]
    cases hverified : shared.session.releaseOrHandoffVerified
    · trivial
    · exact hverified
  | kdPhase phase =>
    simp only [StateStep.exec]
    split <;> simp_all [Section.Justified, StateStep.Justified]
  | confirmRelease =>
    simp only [StateStep.exec]
    split <;> simp [Section.Justified, StateStep.Justified]
  | kernelHandoff pid =>
    simp only [StateStep.exec]
    split <;> simp_all [Section.Justified, StateStep.Justified]
  | takeForHandoff pid =>
    simp only [StateStep.exec]
    split <;> simp [Section.Justified, StateStep.Justified]
  | verifyExit =>
    simp only [StateStep.exec]
    split <;> simp [Section.Justified, StateStep.Justified]
  | finishHandoff =>
    simp only [StateStep.exec]
    split <;> simp_all [Section.Justified, StateStep.Justified]
  | settleUnresolved reply =>
    simp only [StateStep.exec]
    split <;> simp [Section.Justified, StateStep.Justified]
  | _ => simp [StateStep.exec, Section.Justified, StateStep.Justified]

theorem CallStep.Moves.justified {shared after : Shared} {input : Input} {step : CallStep}
    {next : List Section} (hmoves : step.Moves shared input after next)
    (h : (Section.call step).Justified shared) : ∀ item ∈ next, item.Justified after := by
  cases hmoves with
  | submits job caller hkind => simpa [Section.Justified] using hkind
  | inserts job caller =>
    simp only [List.mem_singleton, forall_eq]
    exact h
  | releasePreserved call hkernel =>
    simpa [Section.Justified, StateStep.Justified] using hkernel
  | expires job caller hanswered hexpired =>
    simp only [List.mem_singleton, forall_eq]
    cases hpreserve : shared.session.kind == .kernel && !shared.session.released
    · trivial
    · simp only [Bool.and_eq_true, beq_iff_eq] at hpreserve
      exact hpreserve.1
  | closes job caller preserve hanswered =>
    cases preserve
    · simp [Session.expired, Section.Justified, StateStep.Justified]
    · simpa [Session.expired, Section.Justified, StateStep.Justified] using h
  | _ => simp [Section.Justified, StateStep.Justified]

theorem CallStep.Moves.fitting {shared after : Shared} {input : Input} {step : CallStep}
    {next : List Section} (hmoves : step.Moves shared input after next)
    (h : (Section.call step).Justified shared) (hfitting : shared.Fitting) : after.Fitting := by
  cases hmoves with
  | sends job caller hpumping =>
    intro other hother
    simp only [Shared.enqueue, List.append_assoc, List.mem_append, List.mem_singleton] at hother
    rcases hother with hqueue | rfl | hwrites
    · exact hfitting other (List.mem_append_left _ hqueue)
    · exact h
    · exact hfitting other (List.mem_append_right _ hwrites)
  | notifies hpumping =>
    intro other hother
    simp only [Shared.enqueue, Shared.draw, List.append_assoc, List.mem_append,
      List.mem_singleton] at hother
    rcases hother with hqueue | rfl | hwrites
    · exact hfitting other (List.mem_append_left _ hqueue)
    · show refuseOpOnKind shared.session.kind .preserveKernel = none
      cases shared.session.kind <;> rfl
    · exact hfitting other (List.mem_append_right _ hwrites)
  | _ => exact hfitting

theorem Shared.PumpMoves.jobs_subset {shared after : Shared} (hmoves : shared.PumpMoves after) :
    ∀ job ∈ after.queue ++ after.pump.writes, job ∈ shared.queue ++ shared.pump.writes := by
  cases hmoves with
  | rests => exact fun _ hjob => hjob
  | gates now job rest hpump hqueue =>
    intro other hother
    rw [hqueue, hpump]
    simp only [Shared.gateJob] at hother
    split at hother <;> simp_all [PumpState.writes] <;> tauto
  | writes job hpump hconnected => simp_all [PumpState.writes]
  | turns job reply last hpump => simp_all [PumpState.writes]
  | responds job reply last hpump =>
    cases last <;> simp_all [PumpState.writes, Shared.respond, Shared.removeWaiter,
      Shared.setWaiters, Shared.onSession]
  | stops hpump => simp [PumpState.writes]

theorem Shared.PumpMoves.fitting {shared after : Shared} (hmoves : shared.PumpMoves after)
    (hfitting : shared.Fitting) : after.Fitting := by
  intro job hjob
  rw [hmoves.grows.session.kind]
  exact hfitting job (hmoves.jobs_subset job hjob)

theorem Section.exec_sound (input : Input) (shared : Shared) (item : Section)
    (hfitting : shared.Fitting) (h : item.Justified shared) :
    Sound Shared.Fitting (fun shared item => Section.Justified shared item) shared (item.exec input shared).1
      (item.exec input shared).2 where
  kept := by
    cases item with
    | state step =>
      intro job hjob
      exact (congrArg (refuseOpOnKind · job.call.op)
        (StateStep.exec_grows shared.session input step).kind).trans (hfitting job hjob)
    | call step => exact (step.exec_moves shared input).fitting h hfitting
  stable := fun _ => Section.Justified.grows (item.exec_grows input shared)
  next := by
    cases item with
    | state step => exact StateStep.exec_justified h
    | call step => exact (step.exec_moves shared input).justified h

theorem Entry.start_grows (shared : Shared) (entry : Entry) :
    shared.Grows (entry.start shared).1 := by
  cases entry <;> exact ⟨.of_same rfl rfl rfl rfl, fun haway => haway⟩

theorem Entry.start_fitting {shared : Shared} (entry : Entry) (h : shared.Fitting) :
    (entry.start shared).1.Fitting := by
  cases entry <;> exact h

theorem Entry.start_justified (shared : Shared) (entry : Entry) :
    ∀ item ∈ (entry.start shared).2, item.Justified (entry.start shared).1 := by
  cases entry <;> simp only [Entry.start] <;> (repeat' split) <;>
    simp_all [Section.Justified, StateStep.Justified]

theorem Message.sections_justified {session : Session} (shared : Shared) (message : Message) :
    ∀ item ∈ message.sections session, item.Justified shared := by
  cases message <;> simp only [Message.sections] <;> (repeat' split) <;>
    simp [Section.Justified, StateStep.Justified]

namespace Line

def Justified (line : Line) : Prop :=
  line.Keeps Shared.Fitting fun shared item => Section.Justified shared item

theorem Moves.justified {line after : Line} {act : LineAct} (hmoves : line.Moves act after)
    (h : line.Justified) : after.Justified := by
  cases hmoves with
  | stays => exact h
  | registers hspawned =>
    refine Keeps.put h ?_ ?_ ?_
    · exact h.shared
    · intro item hitem
      refine Section.Justified.grows ?_ hitem
      exact ⟨.of_same rfl rfl rfl rfl, by simp [hspawned]⟩
    · simp [Section.Justified]
  | turnsAway hspawned =>
    refine Keeps.put h ?_ ?_ ?_
    · exact h.shared
    · intro item hitem
      refine Section.Justified.grows ?_ hitem
      exact ⟨.of_same rfl rfl rfl rfl, by simp⟩
    · simp [Section.Justified, StateStep.Justified]
  | starts n entry hregistered hidle =>
    have hgrows := entry.start_grows line.shared
    refine Keeps.put h ?_ ?_ ?_
    · exact entry.start_fitting h.shared
    · exact fun item hitem => hitem.grows hgrows
    · exact entry.start_justified line.shared
  | runs party input head rest hprogram =>
    exact Keeps.runs h hprogram (head.exec_sound input line.shared h.shared)
  | pumps input after hmoves =>
    exact Keeps.onShared h (hmoves.fitting h.shared) fun item hitem => hitem.grows hmoves.grows
  | reads message rest hreader hreading hmessages =>
    refine Keeps.put h ?_ ?_ ?_
    · exact h.shared
    · intro item hitem
      exact hitem.grows ⟨.of_same rfl rfl rfl rfl, fun haway => haway⟩
    · exact message.sections_justified _
  | ends hreader hreading hmessages hconnected =>
    refine Keeps.put h ?_ ?_ ?_
    · exact h.shared
    · exact fun _ hitem => hitem
    · simp [Section.Justified, StateStep.Justified]
  | reports message hreport =>
    exact Keeps.onShared h h.shared fun item hitem =>
      hitem.grows ⟨.of_same rfl rfl rfl rfl, fun haway => haway⟩
  | replies job reply hforwarded hfirst =>
    exact Keeps.onShared h h.shared fun item hitem =>
      hitem.grows ⟨.of_same rfl rfl rfl rfl, fun haway => haway⟩
  | exits =>
    exact Keeps.onShared h h.shared fun item hitem =>
      hitem.grows ⟨.of_same rfl rfl rfl rfl, fun haway => haway⟩

end Line

/-! ## Stickiness -/

namespace Session

def Preserved (session : Session) : Prop :=
  session.kernelUnresolved = true ∨ session.releaseOrHandoffVerified = true

theorem Preserved.of_grows {session after : Session} (hgrows : session.Grows after)
    (hstate : session.kernelUnresolved = true → session.releaseOrHandoffVerified = false →
      after.Preserved) (h : session.Preserved) : after.Preserved := by
  cases hverified : session.releaseOrHandoffVerified with
  | true => exact Or.inr (hgrows.verified hverified)
  | false =>
    cases h with
    | inl hunresolved => exact hstate hunresolved hverified
    | inr hother => exact absurd (hverified.symm.trans hother) (by simp)

section Sticky
variable {session : Session} {now : Nat}

/-- A transition keeps an unresolved kernel where its closure does not propose to
leave it. -/
theorem transition_preserved {next : Proposal}
    (hnext : session.kernelUnresolved = true → session.releaseOrHandoffVerified = false →
      ∀ proposed, (next session.state session.claims).1 = some proposed →
        proposed.isKernelUnresolved = true)
    (h : session.Preserved) : (session.transition now next).1.Preserved := by
  have hgrows : session.Grows (session.transition now next).1 := .of_same rfl rfl rfl rfl
  apply h.of_grows hgrows
  intro hunresolved hverified
  apply Or.inl
  unfold kernelUnresolved
  rcases transition_state next with hsame | ⟨proposed, hproposed, _, hstate⟩
  · rw [hsame]
    exact hunresolved
  · rw [hstate]
    exact hnext hunresolved hverified proposed hproposed

theorem updateState_preserved {next : SessionState → Option SessionState}
    (hnext : session.kernelUnresolved = true → session.releaseOrHandoffVerified = false →
      ∀ proposed, next session.state = some proposed → proposed.isKernelUnresolved = true)
    (h : session.Preserved) : (session.updateState now next).Preserved :=
  transition_preserved hnext h

theorem setState_preserved {next : SessionState} (hnext : next.isLiveControlUnresolved = false)
    (h : session.Preserved) : (session.setState now next).Preserved := by
  apply updateState_preserved _ h
  intro hunresolved hverified proposed hproposed
  obtain ⟨rfl, _, hmove⟩ := ordinaryMove_some hproposed
  cases hkernel : proposed.isKernelUnresolved with
  | true => rfl
  | false =>
    have hreleased : session.released = false := by simp_all [releaseOrHandoffVerified]
    exact absurd ((hmove hreleased hkernel hnext).1.symm.trans hunresolved) (by simp)

theorem state_of_unresolved (h : session.kernelUnresolved = true) :
    ∃ why, session.state = .kernelUnresolved why := by
  unfold kernelUnresolved at h
  cases hstate : session.state with
  | kernelUnresolved why => exact ⟨why, rfl⟩
  | _ =>
    rw [hstate] at h
    cases h

theorem failUnclaimed_preserved {claims : Claims} {why : String} (hkernel : session.kind = .kernel) :
    (session.failUnclaimed now claims why).1.Preserved := by
  apply Or.inr
  unfold releaseOrHandoffVerified
  rw [session.failUnclaimed_released claims why hkernel, Bool.true_or]

theorem refuseTakeover_preserved {job : Nat} (hkernel : session.kind = .kernel)
    (h : session.Preserved) : (session.refuseTakeover now job).1.Preserved := by
  unfold refuseTakeover
  split
  · split
    · exact failUnclaimed_preserved hkernel
    · apply transition_preserved _ h
      intro hunresolved _ proposed hproposed
      obtain ⟨why, hstate⟩ := state_of_unresolved hunresolved
      rw [hstate] at hproposed
      cases hproposed
  · exact h

theorem settleUncommitted_preserved {why : String} (hkernel : session.kind = .kernel)
    (h : session.Preserved) : (session.settleUncommitted now why).1.Preserved := by
  unfold settleUncommitted
  split
  · exact h
  · split
    · exact transition_preserved (fun _ _ _ hproposed => by cases hproposed) h
    · exact failUnclaimed_preserved hkernel

theorem releaseUnclaimedKernel_preserved {refusal : EngineError} (hkernel : session.kind = .kernel)
    (h : session.Preserved) : (session.releaseUnclaimedKernel now refusal).1.Preserved := by
  unfold releaseUnclaimedKernel
  split
  · exact transition_preserved (fun _ _ _ hproposed => by cases hproposed) h
  · exact failUnclaimed_preserved hkernel

/-- Past an unresolved kernel the gate lets only its preservation, and that only
closes the session into the same state. -/
theorem gate_preserved {job : Job} (hkernel : session.kind = .kernel) (h : session.Preserved) :
    (session.gate now job).1.Preserved := by
  unfold gate
  split
  · exact h
  · rename_i hadmitted
    apply transition_preserved _ h
    intro hunresolved _ proposed hproposed
    have hop := (refuses_none hadmitted).1 hunresolved
    obtain ⟨why, _, rfl⟩ :=
      forwarding_of_not_retiring (retires_none_of_op (by simp [hop])) hproposed
    simp [closingState, hkernel, SessionState.isKernelUnresolved]

end Sticky

end Session

theorem StateStep.exec_preserved {shared : Shared} {input : Input} {step : StateStep}
    (hkernel : shared.session.kind = .kernel) (hjustified : step.Justified shared)
    (h : shared.session.Preserved) : (step.exec shared.session input).1.Preserved := by
  have hgrows := StateStep.exec_grows shared.session input step
  have hnotController : shared.session.kind.isSecureKernelController = false := by rw [hkernel]; rfl
  -- Where the closure proposes nothing from an unresolved kernel.
  have hdeclines : ∀ {next : SessionState → Option SessionState},
      (∀ why, next (.kernelUnresolved why) = none) →
        (shared.session.updateState input.now next).Preserved := by
    intro next hnext
    apply Session.updateState_preserved _ h
    intro hunresolved _ proposed hproposed
    obtain ⟨why, hstate⟩ := Session.state_of_unresolved hunresolved
    rw [hstate, hnext why] at hproposed
    cases hproposed
  cases step with
  | preserveKernel why =>
    apply hdeclines
    intro why
    simp [SessionState.isKernelUnresolved]
  | preserveLiveControl why => exact absurd (hnotController.symm.trans hjustified) (by simp)
  | loseLiveControl => exact absurd (hnotController.symm.trans hjustified) (by simp)
  | preserveCompositeController publicPeerGone why =>
    apply hdeclines
    intro why
    simp [SessionState.isKernelUnresolved]
  | finishEnd publicPeerGone reason =>
    apply hdeclines
    intro why
    simp [SessionState.isLiveControlUnresolved]
  | close reason => exact Session.setState_preserved rfl h
  | showPhase phase => exact Session.setState_preserved rfl h
  | commitOpening =>
    apply hdeclines
    intro why
    simp
  | promoteOpened =>
    apply hdeclines
    intro why
    simp
  | replaceTarget why =>
    apply hdeclines
    intro why
    simp
  | kdPhase phase =>
    apply h.of_grows hgrows
    intro hunresolved _
    apply Or.inl
    simp only [StateStep.exec]
    split <;> exact hunresolved
  | refuseTakeover job => exact Session.refuseTakeover_preserved hkernel h
  | settleUncommitted why => exact Session.settleUncommitted_preserved hkernel h
  | settleOpen reply =>
    simp only [StateStep.exec]
    (repeat' split) <;> exact h
  | releaseUnclaimedKernel refusal => exact Session.releaseUnclaimedKernel_preserved hkernel h
  | confirmRelease => exact Or.inr (by simp [StateStep.exec, Session.releaseOrHandoffVerified])
  | publishRelease job => exact Or.inr (by simp [StateStep.exec, Session.releaseOrHandoffVerified])
  | closeReleased =>
    apply Or.inr
    apply hgrows.verified
    unfold Session.releaseOrHandoffVerified
    rw [hjustified, Bool.true_or]
  | verifyExit =>
    simp only [StateStep.exec]
    split <;> exact h
  | handOver => exact Or.inr (by simp [StateStep.exec, Session.releaseOrHandoffVerified])
  | finishHandoff =>
    simp only [StateStep.exec]
    split <;> exact h
  | closeHandedOver =>
    apply Or.inr
    apply hgrows.verified
    unfold Session.releaseOrHandoffVerified
    rw [hjustified, Bool.or_true]
  | _ => exact h

theorem CallStep.Moves.preserved {shared after : Shared} {input : Input} {step : CallStep}
    {next : List Section} (hmoves : step.Moves shared input after next)
    (h : shared.session.Preserved) : after.session.Preserved := by
  cases hmoves <;> exact h

theorem StateStep.exec_child {session : Session} {input : Input} {step : StateStep}
    (hbefore : session.child = true) (hafter : (step.exec session input).1.child = false) :
    (∃ ender, step = .take ender) ∨ ∃ pid, step = .takeForHandoff pid := by
  have hkeeps : (∀ ender, step ≠ .take ender) → (∀ pid, step ≠ .takeForHandoff pid) →
      (step.exec session input).1.child = true := by
    intro htake hhandoff
    cases step with
    | take ender => exact absurd rfl (htake ender)
    | takeForHandoff pid => exact absurd rfl (hhandoff pid)
    | kdPhase phase =>
      simp only [StateStep.exec]
      split <;> exact hbefore
    | refuseTakeover job =>
      simp only [StateStep.exec, Session.refuseTakeover]
      (repeat' split) <;> exact hbefore
    | settleUncommitted why =>
      simp only [StateStep.exec, Session.settleUncommitted]
      (repeat' split) <;> exact hbefore
    | settleOpen reply =>
      simp only [StateStep.exec]
      (repeat' split) <;> exact hbefore
    | releaseUnclaimedKernel refusal =>
      simp only [StateStep.exec, Session.releaseUnclaimedKernel]
      split <;> exact hbefore
    | verifyExit =>
      simp only [StateStep.exec]
      split
      · exact hbefore
      · rfl
    | finishHandoff =>
      simp only [StateStep.exec]
      split <;> exact hbefore
    | _ => exact hbefore
  by_contra hneither
  rw [not_or, not_exists, not_exists] at hneither
  rw [hkeeps hneither.1 hneither.2] at hafter
  cases hafter

theorem CallStep.Moves.child {shared after : Shared} {input : Input} {step : CallStep}
    {next : List Section} (hmoves : step.Moves shared input after next) :
    after.session.child = shared.session.child := by
  cases hmoves <;> rfl

theorem Session.gate_child (session : Session) (now : Nat) (job : Job) :
    (session.gate now job).1.child = session.child := by
  unfold Session.gate
  split <;> rfl

namespace Line

/-- An unresolved kernel stays unresolved through any step, unless a release or a
handoff goes on record. -/
theorem Moves.preserved {line after : Line} {act : LineAct} (hmoves : line.Moves act after)
    (hkernel : line.session.kind = .kernel) (hjustified : line.Justified)
    (h : line.session.Preserved) : after.session.Preserved := by
  cases hmoves with
  | starts n entry hregistered hidle => cases entry <;> exact h
  | runs party input head rest hprogram =>
    have hhead : head.Justified line.shared :=
      hjustified.pending party head (hprogram ▸ List.mem_cons_self)
    cases head with
    | state step => exact StateStep.exec_preserved hkernel hhead h
    | call step => exact (step.exec_moves line.shared input).preserved h
  | pumps input after hmoves =>
    cases hmoves with
    | gates now job rest hpump hqueue => exact Session.gate_preserved hkernel h
    | _ => exact h
  | _ => exact h

/-! ## The worker's process handle -/

def TakesChild (line : Line) (act : LineAct) : Prop :=
  line.session.child = true ∧ (line.step act).session.child = false

def Runs (line : Line) (act : LineAct) (head : Section) : Prop :=
  ∃ party input rest, act = .run party input ∧ line.programs party = head :: rest

theorem takesChild_runs {line : Line} {act : LineAct} (h : line.TakesChild act) :
    (∃ ender, line.Runs act (.state (.take ender))) ∨
      ∃ pid, line.Runs act (.state (.takeForHandoff pid)) := by
  obtain ⟨hbefore, hafter⟩ := h
  have hmoves := line.step_moves act
  generalize line.step act = after at hmoves hafter
  have hkept : after.session.child = line.session.child → False := by
    intro hsame
    rw [hsame, hbefore] at hafter
    cases hafter
  cases hmoves with
  | runs party input head rest hprogram =>
    cases head with
    | state step =>
      rcases StateStep.exec_child hbefore hafter with ⟨ender, rfl⟩ | ⟨pid, rfl⟩
      · exact Or.inl ⟨ender, party, input, rest, rfl, hprogram⟩
      · exact Or.inr ⟨pid, party, input, rest, rfl, hprogram⟩
    | call step => exact absurd (step.exec_moves line.shared input).child hkept
  | starts n entry hregistered hidle => cases entry <;> exact absurd rfl hkept
  | pumps input after hmoves =>
    cases hmoves with
    | gates now job rest hpump hqueue => exact absurd (line.session.gate_child now job) hkept
    | _ => exact absurd rfl hkept
  | _ => exact absurd rfl hkept

/-! ## Runs -/

theorem justified (session : Session) (acts : List LineAct) :
    (run step (spawned session) acts).Justified := by
  refine run_invariant Line.Justified (fun _ _ => True) ?_ ?_ (fun _ _ => trivial)
  · intro line act hline _
    exact (line.step_moves act).justified hline
  · refine ⟨?_, ?_⟩
    · intro job hjob
      cases hjob
    · intro party item hitem
      cases hitem

theorem Moves.kind {line after : Line} {act : LineAct} (hmoves : line.Moves act after) :
    after.session.kind = line.session.kind := by
  cases hmoves with
  | starts n entry hregistered hidle => exact (entry.start_grows line.shared).session.kind
  | runs party input head rest hprogram => exact (head.exec_grows input line.shared).session.kind
  | pumps input after hmoves => exact hmoves.grows.session.kind
  | _ => rfl

theorem run_kind (line : Line) (acts : List LineAct) :
    (run step line acts).session.kind = line.session.kind := by
  refine run_invariant (fun after : Line => after.session.kind = line.session.kind)
    (fun _ _ => True) ?_ rfl (fun _ _ => trivial)
  intro line' act hline _
  exact (line'.step_moves act).kind.trans hline

theorem run_preserved {line : Line} (hkernel : line.session.kind = .kernel)
    (hjustified : line.Justified) (h : line.session.Preserved) (acts : List LineAct) :
    (run step line acts).session.Preserved := by
  have hinvariant := run_invariant
    (fun line : Line =>
      line.session.kind = .kernel ∧ line.Justified ∧ line.session.Preserved)
    (fun _ _ => True)
    (fun line act hline _ =>
      ⟨(line.step_moves act).kind.trans hline.1, (line.step_moves act).justified hline.2.1,
        (line.step_moves act).preserved hline.1 hline.2.1 hline.2.2⟩)
    ⟨hkernel, hjustified, h⟩ (fun _ (_ : _ ∈ visits step line acts) => trivial)
  exact hinvariant.2.2

/-- Of a kernel session that was not turned away, the handle is taken by `kill` only
with the release on record. -/
theorem takesChild_released {line : Line} (hjustified : line.Justified)
    (hkernel : line.session.kind = .kernel) (hadmitted : line.shared.admission ≠ .turnedAway)
    {act : LineAct} {ender : Ender} (hruns : line.Runs act (.state (.take ender))) :
    line.session.released = true := by
  obtain ⟨party, input, rest, _, hprogram⟩ := hruns
  have hhead : Section.Justified line.shared (.state (.take ender)) :=
    hjustified.pending party _ (hprogram ▸ List.mem_cons_self)
  cases ender with
  | turnedAway => exact absurd hhead hadmitted
  | settlement => exact hhead hkernel
  | teardown => exact hhead hkernel

/-- Once a remote kernel is unresolved it stays so until its release or its handoff is
on record, whatever the parties do and in whatever order; and unless the session was
turned away before it was opened, its worker's handle is taken by `kill` only after
the release, and otherwise only by a handoff that named the exact pid. -/
theorem unresolved_kernel_sticky {session : Session} (hkernel : session.kind = .kernel)
    (acts : List LineAct) :
    ((run step (spawned session) acts).session.kernelUnresolved = true →
      ∀ later, let after := (run step (spawned session) (acts ++ later)).session
        after.kernelUnresolved = true ∨ after.released = true ∨
          after.kernelHandoffComplete = true) ∧
    ∀ act, (run step (spawned session) acts).TakesChild act →
      (run step (spawned session) acts).shared.admission ≠ .turnedAway →
        ((∃ ender, (run step (spawned session) acts).Runs act (.state (.take ender))) ∧
            (run step (spawned session) acts).session.released = true) ∨
          (run step (spawned session) acts).Runs act
            (.state (.takeForHandoff (run step (spawned session) acts).session.pid)) := by
  have hjustified := justified session acts
  have hkind : (run step (spawned session) acts).session.kind = .kernel :=
    (run_kind (spawned session) acts).trans hkernel
  constructor
  · intro hunresolved later
    have hpreserved := run_preserved hkind hjustified (Or.inl hunresolved) later
    unfold Session.Preserved Session.releaseOrHandoffVerified at hpreserved
    rw [Bool.or_eq_true] at hpreserved
    have happend : run step (spawned session) (acts ++ later) =
        run step (run step (spawned session) acts) later := List.foldl_append
    rw [happend]
    exact hpreserved
  · intro act htakes hadmitted
    rcases takesChild_runs htakes with ⟨ender, hruns⟩ | ⟨pid, hruns⟩
    · exact Or.inl ⟨⟨ender, hruns⟩, takesChild_released hjustified hkind hadmitted hruns⟩
    · apply Or.inr
      obtain ⟨party, input, rest, hact, hprogram⟩ := hruns
      have hpid : pid = (run step (spawned session) acts).session.pid :=
        hjustified.pending party (.state (.takeForHandoff pid)) (hprogram ▸ List.mem_cons_self)
      exact ⟨party, input, rest, hact, hpid ▸ hprogram⟩

section Example

def handedOff : List LineAct :=
  [.admits true, .run .opener {}, .run .opener {}, .run .opener {},
    .run .opener { expired := true }, .run .opener {}, .run .opener {},
    .start 0 (.kernelHandoff 4242), .run (.caller 0) {}]

theorem unresolved_kernel_sticky_handedOff :
    (run step (spawned remoteKernel) handedOff).TakesChild (.run (.caller 0) {}) ∧
      (∀ later, (run step (spawned remoteKernel) (handedOff ++ later)).session.kernelUnresolved ∨
        (run step (spawned remoteKernel) (handedOff ++ later)).session.released ∨
          (run step (spawned remoteKernel) (handedOff ++ later)).session.kernelHandoffComplete) ∧
      (run step (spawned remoteKernel) handedOff).Runs (.run (.caller 0) {})
        (.state (.takeForHandoff (run step (spawned remoteKernel) handedOff).session.pid)) := by
  have hsticky := unresolved_kernel_sticky (show remoteKernel.kind = .kernel from rfl) handedOff
  have htakes : (run step (spawned remoteKernel) handedOff).TakesChild (.run (.caller 0) {}) :=
    ⟨by decide, by decide⟩
  refine ⟨htakes, hsticky.1 (by decide), ?_⟩
  apply (hsticky.2 _ htakes (by decide)).resolve_left
  intro hkilled
  exact absurd hkilled.2 (by decide)

/-- A kernel session that is turned away at its admission is killed where it stands,
with no release on record. -/
theorem turnedAway_killed :
    ¬∀ session : Session, session.kind = .kernel → ∀ acts act,
      (run step (spawned session) acts).TakesChild act →
        (run step (spawned session) acts).session.released = true ∨
          (run step (spawned session) acts).Runs act
            (.state (.takeForHandoff (run step (spawned session) acts).session.pid)) := by
  intro h
  have hprogram : (run step (spawned remoteKernel) [.admits false, .run .opener {}]).programs
      .opener = [.state (.take .turnedAway)] := by decide
  have hkilled := h remoteKernel rfl [.admits false, .run .opener {}] (.run .opener {})
    ⟨by decide, by decide⟩
  cases hkilled with
  | inl hreleased => exact absurd hreleased (by decide)
  | inr hhandoff =>
    obtain ⟨party, input, rest, hact, hruns⟩ := hhandoff
    cases hact
    rw [hprogram] at hruns
    cases hruns

end Example

end Line

end WindbgMcp.Engine
