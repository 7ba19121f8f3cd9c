import WindbgMcp.Engine.Attaching

/-! Where the worker's refusal of an attach is until it is settled, and that no section of a
party loses it. -/
namespace WindbgMcp.Engine
open Library Threads

/-- The worker's replies have been read and acted on, and no command is between the gate
and the worker. -/
structure Line.Quiescent (line : Line) : Prop where
  messages : line.shared.messages = []
  reader : line.programs .reader = []
  opener : line.programs .opener = []
  pump : ∀ job, line.shared.pump ≠ .writing job

/-! ## Where the refusal is -/

def Section.Belongs (party : Party) : Section → Prop
  | .call (.submit _ caller) | .call (.insert _ caller) | .call (.send _ caller)
  | .call (.await _ caller) | .call (.close _ caller _) | .state (.returned caller _) =>
    caller = .opening ↔ party = .opener
  | .call (.answer _ _) | .call (.deliver _ _) | .state (.refuseTakeover _)
  | .state (.settleOpen _) | .state (.releaseUnclaimedKernel _) => party = .reader
  | _ => True

def Section.AwaitsOpener : Section → Prop
  | .call (.await job _) | .call (.close job _ _) => job = openerJob
  | _ => False

def Section.DeliversOpener : Section → Prop
  | .call (.deliver job _) => job = openerJob
  | _ => False

def Section.SettlesLate : Section → Prop
  | .state (.settleOpen _) | .state (.releaseUnclaimedKernel _) => True
  | _ => False

def Section.SettlesOpener : Section → Prop
  | .call (.await job _) | .call (.close job _ _) => job = openerJob
  | .state (.returned .opening _) | .state (.settleUncommitted _) => True
  | _ => False

namespace Line

def ToRead (line : Line) (item : Section) : Prop :=
  line.Owes .reader (fun other => other = item) ∨
    ∃ message ∈ line.shared.messages, item ∈ message.sections line.session

/-- Where the worker's refusal of the attach is, until it is settled. -/
inductive Owed (line : Line) : Prop
  | unanswered (hreply : openerJob ∉ line.shared.replies.map Prod.fst)
      (hwaiter : openerJob ∈ line.shared.waiters.map Waiting.job ∨
        openerJob ∉ line.shared.jobIds ∧ ¬line.Submitting openerJob) : Owed line
  | unread (reply : Reply) (hread : line.ToRead (.call (.answer openerJob reply)))
      (hsent : openerJob ∈ line.shared.forwarded.map Job.id)
      (hwaiter : openerJob ∈ line.shared.waiters.map Waiting.job) : Owed line
  | undelivered (howes : line.Owes .reader Section.DeliversOpener)
      (hsent : openerJob ∈ line.shared.forwarded.map Job.id) : Owed line
  | late (howes : line.Owes .reader Section.SettlesLate) : Owed line
  | returned (howes : line.Owes .opener Section.SettlesOpener)
      (hanswered : (line.shared.answered openerJob).isSome = true)
      (hwaits : openerJob ∉ line.shared.closed) : Owed line
  | withheld (hwithheld : line.session.claims.withheld.isSome = true) : Owed line

structure Attaching (line : Line) : Prop where
  keeps : line.Keeps Shared.Attaching fun shared item => Section.Attaching shared item
  belongs : ∀ party, ∀ item ∈ line.programs party, item.Belongs party
  unopened : line.shared.admission = .spawned → line.programs .opener = []
  /-- The takeover on record is on its way, and its refusal is not yet acted on. -/
  takeover : ∀ job, line.session.claims.takeover = some job →
    (∃ sent ∈ line.shared.pump.writes ++ line.shared.forwarded,
      sent.id = job ∧ sent.call.retires = true) ∧
    (line.shared.Refused job → line.ToRead (.state (.refuseTakeover job)))
  waits : openerJob ∈ line.shared.jobIds → openerJob ∈ line.shared.closed ∨
    (line.shared.answered openerJob).isSome = true ∨ line.Owes .opener Section.AwaitsOpener
  owed : line.Owed

theorem Attaching.not_quiescent {line : Line} (h : line.Attaching) (hquiet : line.Quiescent)
    (hreplied : openerJob ∈ line.shared.replies.map Prod.fst)
    (hrefused : line.shared.AllRefused) : False := by
  have hnobody : ∀ party p, line.programs party = [] → ¬line.Owes party p := by
    intro party p hidle howes
    obtain ⟨item, hitem, _⟩ := howes
    rw [hidle] at hitem
    cases hitem
  have hnothing : ∀ item, ¬line.ToRead item := by
    intro item hread
    rcases hread with howes | ⟨message, hmessage, _⟩
    · exact hnobody _ _ hquiet.reader howes
    · rw [hquiet.messages] at hmessage
      cases hmessage
  have hfree : line.session.claims.takeover = none := by
    cases htakeover : line.session.claims.takeover with
    | none => rfl
    | some job =>
      obtain ⟨⟨sent, hsent, hid, hretires⟩, hread⟩ := h.takeover job htakeover
      have hforwarded : sent ∈ line.shared.forwarded := by
        rcases List.mem_append.mp hsent with hwriting | hforwarded
        · cases hpump : line.shared.pump with
          | writing writing => exact absurd hpump (hquiet.pump writing)
          | _ => simp [hpump, PumpState.writes] at hwriting
        · exact hforwarded
      exact absurd (hread (hid ▸ hrefused sent hforwarded hretires)) (hnothing _)
  cases h.owed with
  | unanswered hreply _ => exact hreply hreplied
  | unread reply hread _ _ => exact hnothing _ hread
  | undelivered howes _ => exact hnobody _ _ hquiet.reader howes
  | late howes => exact hnobody _ _ hquiet.reader howes
  | returned howes _ _ => exact hnobody _ _ hquiet.opener howes
  | withheld hwithheld =>
    have htakeover := h.keeps.shared.session.withheld hwithheld
    have hnone : line.shared.session.claims.takeover = none := hfree
    rw [hnone] at htakeover
    cases htakeover

end Line

/-! ## Sections of calls -/

section Steps
variable {shared after : Shared} {input : Input} {party : Party}

theorem StateStep.exec_belongs {step : StateStep} (h : Section.Attaching shared (.state step))
    (hbelongs : Section.Belongs party (.state step)) :
    ∀ item ∈ (step.exec shared.session input).2, item.Belongs party := by
  cases step with
  | returned caller reply =>
    cases caller with
    | plain => simp [StateStep.exec, Session.returned]
    | opening =>
      simp only [StateStep.exec, Session.returned, Session.opened]
      (repeat' split) <;> simp [Section.Belongs]
    | releasing => cases h
  | settleVerdict reply =>
    cases reply <;> simp only [StateStep.exec, Session.settleVerdict] <;> (repeat' split) <;>
      simp [Section.Belongs]
  | settleOpen reply =>
    simp only [StateStep.exec]
    have hreader : party = .reader := hbelongs
    (repeat' split) <;> simp [Section.Belongs, hreader]
  | releaseUnclaimedKernel why =>
    simp only [StateStep.exec, Session.killIfMoved]
    (repeat' split) <;> simp [Section.Belongs]
  | settleUnresolved reply =>
    simp only [StateStep.exec]
    split <;> simp [Section.Belongs]
  | preserveKernel why => simp [StateStep.exec, Section.Belongs]
  | refuseTakeover job =>
    simp only [StateStep.exec, Session.killIfMoved]
    (repeat' split) <;> simp [Section.Belongs]
  | settleUncommitted why =>
    simp only [StateStep.exec, Session.killIfMoved]
    (repeat' split) <;> simp [Section.Belongs]
  | kill ender =>
    simp only [StateStep.exec]
    split <;> simp [Section.Belongs]
  | take ender => simp [StateStep.exec]
  | _ => cases h

theorem CallStep.Moves.belongs {step : CallStep} {next : List Section}
    (hmoves : step.Moves shared input after next) (h : Section.Attaching shared (.call step))
    (hbelongs : Section.Belongs party (.call step)) : ∀ item ∈ next, item.Belongs party := by
  cases hmoves with
  | closes job caller preserve hanswered =>
    unfold Session.expired
    split <;> simpa [Section.Belongs] using hbelongs
  | releasePreserved call hkernel => cases h
  | releaseSubmits call => cases h
  | publishes job waiting hwaiter => simp [Section.Belongs]
  | notifies hpumping => simp
  | notifiesNobody hpumping => simp
  | unwaited job reply hwaiter => simp
  | delivers job reply hreceived => simp
  | fails why => simp
  | drains => simp
  | _ => simpa [Section.Belongs] using hbelongs

theorem StateStep.exec_sends (session : Session) (step : StateStep) (id : Nat) :
    ∀ item ∈ (step.exec session input).2, ¬item.Sends id := by
  intro item hitem hsends
  cases item with
  | state next => cases hsends
  | call next =>
    rcases StateStep.call_next session input hitem with rfl | ⟨why, rfl⟩ | ⟨job, rfl, _⟩ <;>
      cases hsends

theorem CallStep.Moves.sent {step : CallStep} {next : List Section}
    (hmoves : step.Moves shared input after next) (h : shared.Attaching)
    (hsent : openerJob ∈ after.jobIds) : openerJob ∈ shared.jobIds ∨
      Section.Sends openerJob (.call step) ∧ ∃ item ∈ next, item.AwaitsOpener := by
  cases hmoves with
  | sends job caller hpumping =>
    by_cases hid : job.id = openerJob
    · exact Or.inr ⟨hid, _, List.mem_singleton_self _, hid⟩
    · apply Or.inl
      simp only [Shared.jobIds, Shared.enqueue, List.map_append, List.mem_append, List.map_cons,
        List.map_nil, List.mem_singleton] at hsent ⊢
      tauto
  | notifies hpumping =>
    have hne := shared.nextId_ne_opener
    apply Or.inl
    simp only [Shared.jobIds, Shared.enqueue, Shared.draw, List.map_append, List.mem_append,
      List.map_cons, List.map_nil, List.mem_singleton] at hsent ⊢
    tauto
  | turnsBack job caller hpumping =>
    have hrunning := h.running
    simp_all [Shared.pumping, PumpState.isRunning]
  | _ => exact Or.inl hsent

theorem Shared.answered_isSome {job : Nat} (h : (shared.answered job).isSome = true)
    (hanswers : ∃ more, after.answers = shared.answers ++ more) :
    (after.answered job).isSome = true := by
  obtain ⟨more, hmore⟩ := hanswers
  unfold Shared.answered at h ⊢
  rw [hmore, List.find?_append]
  simp only [Option.isSome_map] at h ⊢
  exact Option.isSome_or.trans (by simp [h])

theorem Shared.answered_of_mem {job : Nat} {reply : Reply} (h : (job, reply) ∈ shared.answers) :
    (shared.answered job).isSome = true := by
  unfold Shared.answered
  rw [Option.isSome_map, List.find?_isSome]
  exact ⟨(job, reply), h, beq_self_eq_true job⟩

theorem CallStep.Moves.answers_append {step : CallStep} {next : List Section}
    (hmoves : step.Moves shared input after next) :
    ∃ more, after.answers = shared.answers ++ more := by
  cases hmoves with
  | delivers job reply hreceived => exact ⟨_, rfl⟩
  | settles reply hclosed => exact ⟨_, rfl⟩
  | fails why => exact ⟨_, rfl⟩
  | drains => exact ⟨_, rfl⟩
  | _ => exact ⟨[], (List.append_nil _).symm⟩

theorem CallStep.Moves.awaits_opener {step : CallStep} {next : List Section}
    (hmoves : step.Moves shared input after next) (h : Section.AwaitsOpener (.call step)) :
    openerJob ∈ after.closed ∨ (after.answered openerJob).isSome = true ∨
      ∃ item ∈ next, item.AwaitsOpener := by
  cases hmoves with
  | awaited job caller reply hanswered =>
    have hjob : job = openerJob := h
    rw [hjob] at hanswered
    exact Or.inr (Or.inl (by rw [hanswered]; rfl))
  | expires job caller hanswered hexpired =>
    exact Or.inr (Or.inr ⟨_, List.mem_singleton_self _, h⟩)
  | awaits job caller hanswered => exact Or.inr (Or.inr ⟨_, List.mem_singleton_self _, h⟩)
  | closeReturns job caller preserve reply hanswered =>
    have hjob : job = openerJob := h
    rw [hjob] at hanswered
    exact Or.inr (Or.inl (by rw [hanswered]; rfl))
  | closes job caller preserve hanswered =>
    have hjob : job = openerJob := h
    exact Or.inl (hjob ▸ List.mem_cons_self)
  | _ => cases h

theorem CallStep.Moves.waiter_opener {step : CallStep} {next : List Section}
    (hmoves : step.Moves shared input after next) (h : shared.Attaching)
    (hstep : Section.Attaching shared (.call step))
    (hwaiter : openerJob ∈ shared.waiters.map Waiting.job) :
    openerJob ∈ after.waiters.map Waiting.job ∨
      ∃ reply, step = .answer openerJob reply ∧ ∃ item ∈ next, item.DeliversOpener := by
  have hremoved : ∀ job, job ≠ openerJob →
      openerJob ∈ (shared.removeWaiter job).waiters.map Waiting.job := by
    intro job hjob
    obtain ⟨waiting, hwaiting, hid⟩ := List.mem_map.mp hwaiter
    refine List.mem_map.mpr ⟨waiting, List.mem_filter.mpr ⟨hwaiting, ?_⟩, hid⟩
    rw [hid, bne_iff_ne]
    exact Ne.symm hjob
  cases hmoves with
  | inserts job caller => exact Or.inl (List.mem_cons_of_mem _ hwaiter)
  | turnsBack job caller hpumping =>
    have hrunning := h.running
    simp_all [Shared.pumping, PumpState.isRunning]
  | publishes job waiting hfound hending =>
    have hnot := h.waiters waiting (List.mem_of_find?_eq_some hfound)
    rw [hending] at hnot
    cases hnot
  | answers job reply waiting hfound =>
    by_cases hjob : job = openerJob
    · subst hjob
      exact Or.inr ⟨reply, rfl, _, List.mem_singleton_self _, rfl⟩
    · exact Or.inl (hremoved job hjob)
  | fails why => cases hstep
  | drains => cases hstep
  | _ => exact Or.inl hwaiter

theorem CallStep.Moves.inserts_sent {step : CallStep} {next : List Section}
    (hmoves : step.Moves shared input after next) (hnext : ∃ item ∈ next, item.Sends openerJob) :
    openerJob ∈ after.waiters.map Waiting.job := by
  obtain ⟨item, hitem, hsends⟩ := hnext
  cases hmoves with
  | inserts job caller =>
    have hid : job.id = openerJob := by
      rw [List.mem_singleton] at hitem
      rw [hitem] at hsends
      exact hsends
    exact List.mem_map.mpr ⟨_, List.mem_cons_self, hid⟩
  | closes job caller preserve hanswered =>
    unfold Session.expired at hitem
    split at hitem <;> simp only [List.mem_cons, List.not_mem_nil, or_false] at hitem
    · rcases hitem with rfl | rfl <;> cases hsends
    · subst hitem
      cases hsends
  | _ =>
    first
      | (rw [List.mem_singleton] at hitem; subst hitem; cases hsends)
      | cases hitem

theorem Message.mem_sections {session other : Session} {message : Message} {item : Section}
    (hkind : other.kind = session.kind) (h : item ∈ message.sections session) :
    item ∈ message.sections other := by
  have hsame : message.sections other = message.sections session := by
    cases message <;> simp only [Message.sections, hkind]
  rw [hsame]
  exact h

end Steps

namespace Line
variable {line : Line} {item head : Section} {party : Party} {rest next : List Section}
  {after : Shared}

theorem ToRead.runs (h : line.ToRead item) (hprogram : line.programs party = head :: rest)
    (after : Shared) (next : List Section) (hmessages : after.messages = line.shared.messages)
    (hkind : after.session.kind = line.session.kind) :
    party = .reader ∧ head = item ∨ ToRead (line.put party after (next ++ rest)) item := by
  rcases h with howes | ⟨message, hmessage, hitem⟩
  · rcases howes.runs hprogram with ⟨rfl, hhead⟩ | hrest
    · exact Or.inl ⟨rfl, hhead⟩
    · exact Or.inr (Or.inl hrest)
  · refine Or.inr (Or.inr ⟨message, ?_, ?_⟩)
    · rw [Threads.put_shared, hmessages]
      exact hmessage
    · exact Message.mem_sections hkind hitem

theorem ToRead.idle (h : line.ToRead item) (hidle : line.programs party = [])
    (hmessages : after.messages = line.shared.messages)
    (hkind : after.session.kind = line.session.kind) {program : List Section} :
    ToRead (line.put party after program) item := by
  rcases h with howes | ⟨message, hmessage, hitem⟩
  · exact Or.inl (howes.idle hidle)
  · refine Or.inr ⟨message, ?_, ?_⟩
    · rw [Threads.put_shared, hmessages]
      exact hmessage
    · exact Message.mem_sections hkind hitem

theorem ToRead.onShared (h : line.ToRead item) (hmessages : line.shared.messages ⊆ after.messages)
    (hkind : after.session.kind = line.session.kind) : (line.onShared after).ToRead item := by
  rcases h with howes | ⟨message, hmessage, hitem⟩
  · exact Or.inl howes
  · exact Or.inr ⟨message, hmessages hmessage, Message.mem_sections hkind hitem⟩

theorem submitting_of_next (hsubmitting : Submitting (line.put party after (next ++ rest)) openerJob)
    (hprogram : line.programs party = head :: rest) :
    line.Submitting openerJob ∨ ∃ item ∈ next, item.Sends openerJob := by
  obtain ⟨other, howes⟩ := hsubmitting
  rcases howes.origin with hbefore | ⟨rfl, item, hitem, hsends⟩
  · exact Or.inl ⟨other, hbefore⟩
  · rcases List.mem_append.mp hitem with hnew | hrest
    · exact Or.inr ⟨item, hnew, hsends⟩
    · refine Or.inl ⟨other, item, ?_, hsends⟩
      rw [hprogram]
      exact List.mem_cons_of_mem _ hrest

/-- A section of the state that settles the attach late: the refusal is applied or withheld. -/
theorem settlesLate_next {shared : Shared} (input : Input) {step : StateStep}
    (h : shared.Attaching) (hstep : Section.Attaching shared (.state step))
    (hlate : Section.SettlesLate (.state step)) :
    (∃ item ∈ (step.exec shared.session input).2, item.SettlesLate) ∨
      (step.exec shared.session input).1.Unclaimed ∨
        (step.exec shared.session input).1.claims.withheld.isSome = true := by
  cases step with
  | settleOpen reply =>
    apply Or.inl
    cases reply with
    | ok => cases hstep
    | error why =>
      have hrefused : (Reply.error why).isRecoveryRequired = false := by
        cases why <;> first | rfl | cases hstep
      refine ⟨.state (.releaseUnclaimedKernel why), ?_, trivial⟩
      simp [StateStep.exec, h.session.kernel, h.session.phase, OpenPhase.isCommitted, hrefused]
  | releaseUnclaimedKernel why =>
    rcases h.session.releaseUnclaimedKernel input.now why with hunclaimed | ⟨_, hwithheld⟩
    · exact Or.inr (Or.inl hunclaimed)
    · exact Or.inr (Or.inr hwithheld)
  | _ => cases hlate

theorem settlesOpener_next {shared : Shared} (input : Input) {step : StateStep}
    (h : shared.Attaching) (hstep : Section.Attaching shared (.state step))
    (hsettles : Section.SettlesOpener (.state step)) (hwaits : openerJob ∉ shared.closed) :
    (∃ item ∈ (step.exec shared.session input).2, item.SettlesOpener) ∨
      (step.exec shared.session input).1.Unclaimed ∨
        (step.exec shared.session input).1.claims.withheld.isSome = true := by
  cases step with
  | returned caller reply =>
    cases caller with
    | opening =>
      have hrefusal : reply.isRefusal = true := by
        rcases hstep with hrefusal | ⟨_, hgone⟩
        · exact hrefusal
        · exact absurd hgone hwaits
      obtain ⟨why, hopened⟩ := h.session.opened hrefusal
      refine Or.inl ⟨.state (.settleUncommitted why), ?_, trivial⟩
      simp [StateStep.exec, Session.returned, hopened]
    | _ => cases hsettles
  | settleUncommitted why =>
    have hresolved : shared.session.kernelUnresolved = false := by
      cases hunresolved : shared.session.kernelUnresolved with
      | false => rfl
      | true => exact absurd (h.unresolved hunresolved) hwaits
    rcases h.session.settleUncommitted input.now why with hunclaimed | ⟨_, hwithheld⟩
    · exact Or.inr (Or.inl hunclaimed)
    · exact Or.inr (Or.inr (hwithheld hresolved))
  | _ => cases hsettles

theorem Attaching.runs_state {step : StateStep} (h : line.Attaching)
    (hprogram : line.programs party = .state step :: rest) (input : Input) :
    (step.exec line.shared.session input).1.Unclaimed ∨
      Attaching (line.put party (line.shared.onSession (step.exec line.shared.session input).1)
        ((step.exec line.shared.session input).2 ++ rest)) := by
  have hmem : .state step ∈ line.programs party := by
    rw [hprogram]
    exact List.mem_cons_self
  have hshared := h.keeps.shared
  have hdue := h.keeps.pending party _ hmem
  rcases StateStep.exec_holds input hshared hdue with hunclaimed | hholds
  · exact Or.inl hunclaimed
  have hkind : (step.exec line.shared.session input).1.kind = line.session.kind :=
    hholds.attaching.kernel.trans hshared.session.kernel.symm
  have hwaiters : (line.shared.onSession (step.exec line.shared.session input).1).waiters =
      line.shared.waiters := StateStep.exec_waiters line.shared.session input step
  have hreads : ∀ {item}, line.ToRead item → .state step = item ∨
      ToRead (line.put party (line.shared.onSession (step.exec line.shared.session input).1)
        ((step.exec line.shared.session input).2 ++ rest)) item := by
    intro item hread
    have hlater := hread.runs hprogram
      (line.shared.onSession (step.exec line.shared.session input).1)
      (step.exec line.shared.session input).2 rfl hkind
    exact hlater.imp_left And.right
  by_cases hunclaimed : (step.exec line.shared.session input).1.Unclaimed
  · exact Or.inl hunclaimed
  refine Or.inr ⟨?_, ?_, ?_, ?_, ?_, ?_⟩
  · refine Keeps.runs h.keeps hprogram fun _ => ⟨?_, ?_, ?_⟩
    · refine ⟨hholds.attaching, hshared.connected, hshared.running, hholds.unresolved,
        hshared.responding, hshared.answers, hshared.messages, hshared.replied, hshared.queued, ?_⟩
      rw [hwaiters]
      exact hshared.waiters
    · exact fun item hitem => (Section.attaching_onSession _ _ item).mpr hitem
    · intro item hitem
      exact (Section.attaching_onSession _ _ item).mpr (StateStep.exec_next hshared hdue item hitem)
  · refine put_forall h.belongs ?_
    intro item hitem
    rcases List.mem_append.mp hitem with hnew | hrest
    · exact StateStep.exec_belongs hdue (h.belongs party _ hmem) item hnew
    · exact h.belongs party item (hprogram ▸ List.mem_cons_of_mem _ hrest)
  · intro hadmission
    have hidle := h.unopened hadmission
    rw [put_programs_of_ne]
    · exact hidle
    · rintro rfl
      rw [hidle] at hprogram
      cases hprogram
  · intro job htakeover
    rcases hholds.takeover with hsame | hnone
    · have hbefore : line.session.claims.takeover = some job := hsame.symm.trans htakeover
      obtain ⟨hsent, hread⟩ := h.takeover job hbefore
      refine ⟨hsent, fun hrefused => ?_⟩
      rcases hreads (hread hrefused) with hhead | hlater
      · -- It is this verdict that has just cleared the takeover.
        cases hhead
        have hcleared := line.session.refuseTakeover_takeover input.now job
        rw [if_pos hbefore] at hcleared
        exact absurd (hcleared.symm.trans htakeover) (by simp)
      · exact hlater
    · exact absurd (hnone.symm.trans htakeover) (by simp)
  · intro hsent
    rcases h.waits hsent with hclosed | hanswered | howes
    · exact Or.inl hclosed
    · exact Or.inr (Or.inl hanswered)
    · rcases howes.runs hprogram with ⟨_, hhead⟩ | hlater
      · cases hhead
      · exact Or.inr (Or.inr hlater)
  · cases h.owed with
    | unanswered hreply hwaiter =>
      refine .unanswered hreply ?_
      rw [Threads.put_shared, hwaiters]
      refine hwaiter.imp_right fun habsent => ⟨habsent.1, fun hsubmitting => ?_⟩
      rcases submitting_of_next hsubmitting hprogram with hbefore | ⟨item, hitem, hsends⟩
      · exact habsent.2 hbefore
      · exact StateStep.exec_sends _ step openerJob item hitem hsends
    | unread reply hread hsent hwaiter =>
      rcases hreads hread with hhead | hlater
      · cases hhead
      · exact .unread reply hlater hsent (by rw [Threads.put_shared, hwaiters]; exact hwaiter)
    | undelivered howes hsent =>
      rcases howes.runs hprogram with ⟨_, hhead⟩ | hlater
      · cases hhead
      · exact .undelivered hlater hsent
    | late howes =>
      rcases howes.runs hprogram with ⟨rfl, hhead⟩ | hlater
      · rcases settlesLate_next input hshared hdue hhead with
          ⟨item, hitem, hnext⟩ | hsettled | hwithheld
        · exact .late (owes_next hitem hnext)
        · exact absurd hsettled hunclaimed
        · exact .withheld hwithheld
      · exact .late hlater
    | returned howes hanswered hwaits =>
      rcases howes.runs hprogram with ⟨rfl, hhead⟩ | hlater
      · rcases settlesOpener_next input hshared hdue hhead hwaits with
          ⟨item, hitem, hnext⟩ | hsettled | hwithheld
        · exact .returned (owes_next hitem hnext) hanswered hwaits
        · exact absurd hsettled hunclaimed
        · exact .withheld hwithheld
      · exact .returned hlater hanswered hwaits
    | withheld hwithheld => exact .withheld (hholds.withheld hwithheld)

section CallStep
variable {step : CallStep} {input : Input} (h : line.Attaching)
  (hprogram : line.programs party = .call step :: rest)
  (hmoves : step.Moves line.shared input after next)
include h hprogram hmoves

omit h in
theorem ToRead.call (hread : line.ToRead item) : .call step = item ∨
    ToRead (line.put party after (next ++ rest)) item := by
  obtain ⟨-, -, -, hmessages, -⟩ := hmoves.standing
  exact (hread.runs hprogram after next hmessages hmoves.flags.1).imp_left And.right

theorem Attaching.takeover_call (job : Nat)
    (htakeover : after.session.claims.takeover = some job) :
    (∃ sent ∈ after.pump.writes ++ after.forwarded, sent.id = job ∧ sent.call.retires = true) ∧
      (after.Refused job →
        ToRead (line.put party after (next ++ rest)) (.state (.refuseTakeover job))) := by
  obtain ⟨hstanding, hforwarded, hreplies, -, hpump⟩ := hmoves.standing
  have hbefore : line.session.claims.takeover = some job :=
    (congrArg (fun standing => standing.claims.takeover) hstanding).symm.trans htakeover
  obtain ⟨hsent, hread⟩ := h.takeover job hbefore
  refine ⟨by rw [hpump, hforwarded]; exact hsent, ?_⟩
  rintro ⟨reply, hreply, hrecovery⟩
  rcases ToRead.call hprogram hmoves (hread ⟨reply, hreplies ▸ hreply, hrecovery⟩) with
    hhead | hlater
  · cases hhead
  · exact hlater

theorem Attaching.waits_call (hsent : openerJob ∈ after.jobIds) :
    openerJob ∈ after.closed ∨ (after.answered openerJob).isSome = true ∨
      Owes (line.put party after (next ++ rest)) .opener Section.AwaitsOpener := by
  have hmem : .call step ∈ line.programs party := by
    rw [hprogram]
    exact List.mem_cons_self
  have hdue := h.keeps.pending party _ hmem
  have hmine := h.belongs party _ hmem
  rcases hmoves.sent h.keeps.shared hsent with hbefore | ⟨hsends, item, hitem, hawaits⟩
  · rcases h.waits hbefore with hclosed | hbefore | howes
    · exact Or.inl (hmoves.closed hclosed)
    · exact Or.inr (Or.inl (Shared.answered_isSome hbefore hmoves.answers_append))
    · rcases howes.runs hprogram with ⟨rfl, hhead⟩ | hlater
      · rcases hmoves.awaits_opener hhead with hclosed | hnow | ⟨item, hitem, hawaits⟩
        · exact Or.inl hclosed
        · exact Or.inr (Or.inl hnow)
        · exact Or.inr (Or.inr (owes_next hitem hawaits))
      · exact Or.inr (Or.inr hlater)
  · -- The attach is sent by its own caller.
    have hopener : party = .opener := by
      cases step with
      | send job caller => exact hmine.mp (hdue.2.2.mp hsends)
      | _ => cases hsends
    subst hopener
    exact Or.inr (Or.inr (owes_next hitem hawaits))

theorem Attaching.unanswered_call (hreply : openerJob ∉ line.shared.replies.map Prod.fst)
    (hwaiter : openerJob ∈ line.shared.waiters.map Waiting.job ∨
      openerJob ∉ line.shared.jobIds ∧ ¬line.Submitting openerJob) :
    Owed (line.put party after (next ++ rest)) := by
  have hmem : .call step ∈ line.programs party := by
    rw [hprogram]
    exact List.mem_cons_self
  have hdue := h.keeps.pending party _ hmem
  obtain ⟨-, -, hreplies, -, -⟩ := hmoves.standing
  refine .unanswered (by rw [Threads.put_shared, hreplies]; exact hreply) ?_
  rcases hwaiter with hwaiter | ⟨hunsent, hidle⟩
  · rcases hmoves.waiter_opener h.keeps.shared hdue hwaiter with hkept | ⟨reply, rfl, _⟩
    · exact Or.inl hkept
    · exact absurd hdue.1 hreply
  by_cases hinserted : ∃ item ∈ next, item.Sends openerJob
  · exact Or.inl (hmoves.inserts_sent hinserted)
  refine Or.inr ⟨?_, ?_⟩
  · intro hsent
    rcases hmoves.sent h.keeps.shared hsent with hbefore | ⟨hsends, _⟩
    · exact hunsent hbefore
    · exact hidle ⟨party, _, hmem, hsends⟩
  · intro hsubmitting
    rcases submitting_of_next hsubmitting hprogram with hbefore | hnew
    · exact hidle hbefore
    · exact hinserted hnew

theorem Attaching.unread_call {reply : Reply}
    (hread : line.ToRead (.call (.answer openerJob reply)))
    (hsent : openerJob ∈ line.shared.forwarded.map Job.id)
    (hwaiter : openerJob ∈ line.shared.waiters.map Waiting.job) :
    Owed (line.put party after (next ++ rest)) := by
  have hmem : .call step ∈ line.programs party := by
    rw [hprogram]
    exact List.mem_cons_self
  have hmine := h.belongs party _ hmem
  obtain ⟨-, hforwarded, -, -, -⟩ := hmoves.standing
  have hsentAfter : openerJob ∈ after.forwarded.map Job.id := by
    rw [hforwarded]
    exact hsent
  rcases hmoves.waiter_opener h.keeps.shared (h.keeps.pending party _ hmem) hwaiter with
    hkept | ⟨_, rfl, item, hitem, hdelivers⟩
  · rcases ToRead.call hprogram hmoves hread with hhead | hlater
    · -- With its waiter there, the answer is taken out to be delivered.
      cases hhead
      cases hmoves with
      | unwaited _ _ hnone =>
        obtain ⟨waiting, hwaiting, hid⟩ := List.mem_map.mp hwaiter
        have hfound := List.find?_eq_none.mp hnone waiting hwaiting
        rw [hid] at hfound
        exact absurd (beq_self_eq_true openerJob) hfound
      | publishes _ waiting hfound hending =>
        have hnot := h.keeps.shared.waiters waiting (List.mem_of_find?_eq_some hfound)
        rw [hending] at hnot
        cases hnot
      | answers _ _ waiting hfound =>
        have hreader : party = .reader := hmine
        subst hreader
        exact .undelivered (owes_next (List.mem_singleton_self _) rfl) hsentAfter
    · exact .unread reply hlater hsentAfter hkept
  · have hreader : party = .reader := hmine
    subst hreader
    exact .undelivered (owes_next hitem hdelivers) hsentAfter

theorem Attaching.undelivered_call
    (hanswers : line.Linear Shared.answerIds Section.owedAnswer Shared.Drawn)
    (howes : line.Owes .reader Section.DeliversOpener)
    (hsent : openerJob ∈ line.shared.forwarded.map Job.id) :
    Owed (line.put party after (next ++ rest)) := by
  obtain ⟨-, hforwarded, -, -, -⟩ := hmoves.standing
  rcases howes.runs hprogram with ⟨rfl, hhead⟩ | hlater
  · have hmem : .call step ∈ line.programs .reader := by
      rw [hprogram]
      exact List.mem_cons_self
    cases step with
    | deliver job reply =>
      have hjob : job = openerJob := hhead
      subst hjob
      cases hmoves with
      | settles _ hclosed =>
        exact .late (owes_next (List.mem_singleton_self _) trivial)
      | delivers _ _ hreceived =>
        have hnotClosed : openerJob ∉ line.shared.closed := by
          rcases hreceived with hclosed | hne
          · simpa using hclosed
          · exact absurd rfl hne
        -- It is not answered yet, so its caller still waits.
        have hunanswered : (line.shared.answered openerJob).isSome = false := by
          cases hbefore : line.shared.answered openerJob with
          | none => rfl
          | some sent =>
            have hcarried : openerJob ∈ (line.programs .reader).flatMap Section.owedAnswer :=
              List.mem_flatMap.mpr ⟨_, hmem, List.mem_singleton_self _⟩
            apply absurd _ (hanswers.not_held hcarried)
            exact List.mem_append_right _
              (List.mem_map_of_mem (f := Prod.fst) (Shared.answered_mem hbefore))
        have hheld : openerJob ∈ line.shared.jobIds := by
          simp only [Shared.jobIds, List.mem_append]
          exact Or.inl (Or.inr hsent)
        rcases h.waits hheld with hclosed | hbefore | howes
        · exact absurd hclosed hnotClosed
        · rw [hunanswered] at hbefore
          cases hbefore
        · refine .returned ?_ ?_ hnotClosed
          · refine Owes.elsewhere (howes.mono ?_) (by simp)
            intro item hawaits
            cases item with
            | state step => cases hawaits
            | call step => cases step <;> exact hawaits
          · exact Shared.answered_of_mem (List.mem_append_right _ (List.mem_singleton_self _))
    | _ => cases hhead
  · refine .undelivered hlater ?_
    rw [Threads.put_shared, hforwarded]
    exact hsent

theorem Attaching.returned_call (howes : line.Owes .opener Section.SettlesOpener)
    (hbefore : (line.shared.answered openerJob).isSome = true)
    (hwaits : openerJob ∉ line.shared.closed) : Owed (line.put party after (next ++ rest)) := by
  have hmem : .call step ∈ line.programs party := by
    rw [hprogram]
    exact List.mem_cons_self
  have hdue := h.keeps.pending party _ hmem
  have hanswered : (after.answered openerJob).isSome = true :=
    Shared.answered_isSome hbefore hmoves.answers_append
  -- A caller that is answered neither runs out of time nor closes its call.
  have hhere : ∀ job, job = openerJob → line.shared.answered job ≠ none := by
    rintro job rfl hnone
    rw [hnone] at hbefore
    cases hbefore
  have hunclosed : openerJob ∉ after.closed := by
    cases hmoves with
    | closes job caller preserve hnone =>
      intro hclosed
      rcases List.mem_cons.mp hclosed with rfl | hold
      · exact hhere _ rfl hnone
      · exact hwaits hold
    | _ => exact hwaits
  rcases howes.runs hprogram with ⟨rfl, hhead⟩ | hlater
  · have hreturns : ∀ job caller reply, (job = openerJob ↔ caller = .opening) →
        job = openerJob → Section.SettlesOpener (.state (.returned caller reply)) := by
      intro job caller reply hopening hjob
      rw [hopening.mp hjob]
      trivial
    cases hmoves with
    | awaited job caller reply _ =>
      exact .returned (owes_next (List.mem_singleton_self _)
        (hreturns job caller reply hdue.2 hhead)) hanswered hunclosed
    | closeReturns job caller preserve reply _ =>
      exact .returned (owes_next (List.mem_singleton_self _)
        (hreturns job caller reply hdue.2.1 hhead)) hanswered hunclosed
    | expires job caller hnone _ => exact absurd hnone (hhere job hhead)
    | awaits job caller hnone => exact absurd hnone (hhere job hhead)
    | closes job caller preserve hnone => exact absurd hnone (hhere job hhead)
    | _ => cases hhead
  · exact .returned hlater hanswered hunclosed

theorem Attaching.owed_call
    (hanswers : line.Linear Shared.answerIds Section.owedAnswer Shared.Drawn) :
    Owed (line.put party after (next ++ rest)) := by
  cases h.owed with
  | unanswered hreply hwaiter => exact h.unanswered_call hprogram hmoves hreply hwaiter
  | unread reply hread hsent hwaiter => exact h.unread_call hprogram hmoves hread hsent hwaiter
  | undelivered howes hsent => exact h.undelivered_call hprogram hmoves hanswers howes hsent
  | late howes =>
    rcases howes.runs hprogram with ⟨_, hhead⟩ | hlater
    · cases hhead
    · exact .late hlater
  | returned howes hbefore hwaits => exact h.returned_call hprogram hmoves howes hbefore hwaits
  | withheld hwithheld =>
    apply Owed.withheld
    have hsame : (line.put party after (next ++ rest)).shared.session.claims =
        line.session.claims := congrArg Standing.claims hmoves.standing.1
    unfold session
    rw [hsame]
    exact hwithheld

theorem Attaching.runs_call
    (hanswers : line.Linear Shared.answerIds Section.owedAnswer Shared.Drawn)
    (hexpired : input.expired = true → party = .opener ∨ openerJob ∈ line.shared.closed) :
    Attaching (line.put party after (next ++ rest)) := by
  have hmem : .call step ∈ line.programs party := by
    rw [hprogram]
    exact List.mem_cons_self
  have hshared := h.keeps.shared
  have hdue := h.keeps.pending party _ hmem
  have hmine := h.belongs party _ hmem
  obtain ⟨-, -, hreplies, -, -⟩ := hmoves.standing
  refine ⟨?_, ?_, ?_, h.takeover_call hprogram hmoves, h.waits_call hprogram hmoves,
    h.owed_call hprogram hmoves hanswers⟩
  · refine Keeps.runs h.keeps hprogram fun _ => ⟨hmoves.attaching hshared hdue, ?_, ?_⟩
    · intro item hitem
      exact Section.Attaching.mono hmoves.closed (by rw [hreplies]; exact List.Subset.refl _) hitem
    · apply hmoves.next_attaching hshared hdue
      intro hspent job caller hawait
      -- Only the attach's own caller has its call in its hands.
      apply (hexpired hspent).imp_left
      intro hopener
      rw [hawait] at hdue hmine
      exact hdue.2.mpr (hmine.mpr hopener)
  · refine put_forall h.belongs ?_
    intro item hitem
    rcases List.mem_append.mp hitem with hnew | hrest
    · exact hmoves.belongs hdue hmine item hnew
    · exact h.belongs party item (hprogram ▸ List.mem_cons_of_mem _ hrest)
  · intro hadmission
    have hsame : after.admission = line.shared.admission := by
      cases hmoves <;> rfl
    rw [Threads.put_shared, hsame] at hadmission
    have hidle := h.unopened hadmission
    rw [put_programs_of_ne]
    · exact hidle
    · rintro rfl
      rw [hidle] at hprogram
      cases hprogram

end CallStep

end Line

end WindbgMcp.Engine
