import WindbgMcp.Engine.Machine

/-! Job ids.  Each is drawn once from the session's counter, the opener's own being
reserved, and is then only handed on: from the call that is being submitted to the
queue, the pump and the worker, and from the call to its waiter and its answer. -/
namespace WindbgMcp.Engine
open Library Threads

def Shared.Drawn (shared : Shared) (id : Nat) : Prop :=
  (id = openerJob ∧ shared.admission ≠ .spawned) ∨ (openerJob < id ∧ id < shared.nextId)

/-! ## What sections leave alone -/

section Frame
variable (session : Session) (input : Input) (shared : Shared)

theorem StateStep.exec_waiters (step : StateStep) :
    (step.exec session input).1.waiters = session.waiters := by
  cases step <;> simp only [StateStep.exec] <;> try rfl
  case kdPhase => split <;> rfl
  case refuseTakeover =>
    unfold Session.refuseTakeover
    (repeat' split) <;> rfl
  case settleUncommitted =>
    unfold Session.settleUncommitted
    (repeat' split) <;> rfl
  case settleOpen => (repeat' split) <;> rfl
  case releaseUnclaimedKernel =>
    unfold Session.releaseUnclaimedKernel
    split <;> rfl
  case verifyExit => split <;> rfl
  case finishHandoff => split <;> rfl

/-! Sections of calls seldom follow a section of the state. -/

@[simp] theorem Session.call_notMem_killIfMoved (settled : Settled) (next : CallStep) :
    .call next ∉ Session.killIfMoved settled := by
  unfold Session.killIfMoved
  split <;> simp

@[simp] theorem Session.call_notMem_opened (reply : Reply) (next : CallStep) :
    .call next ∉ session.opened reply := by
  unfold Session.opened
  (repeat' split) <;> simp

@[simp] theorem Session.call_notMem_settleVerdict (reply : Reply) (next : CallStep) :
    .call next ∉ session.settleVerdict reply := by
  unfold Session.settleVerdict
  (repeat' split) <;> simp

@[simp] theorem Session.call_notMem_workerExited (next : CallStep) :
    .call next ∉ session.workerExited := by
  unfold Session.workerExited
  (repeat' split) <;> simp

theorem Session.call_mem_returned {reply : Reply} {caller : Caller} {next : CallStep}
    (h : .call next ∈ session.returned reply caller) : ∃ why, next = .failOutstanding why := by
  cases caller with
  | plain => cases h
  | opening => exact absurd h (session.call_notMem_opened reply next)
  | releasing =>
    unfold Session.returned Session.releaseReturned at h
    (repeat' split at h) <;> simp_all

theorem StateStep.call_next {step : StateStep} {next : CallStep}
    (h : .call next ∈ (step.exec session input).2) :
    next = .notify ∨ (∃ why, next = .failOutstanding why) ∨
      ∃ job, next = .deliver job .ok ∧ step = .publishRelease job := by
  cases step <;> simp only [StateStep.exec] at h
  case returned => exact Or.inr (Or.inl (session.call_mem_returned h))
  case publishRelease job =>
    have hnext : next = .deliver job .ok ∨ next = .failOutstanding (sessionEnded session.id) := by
      simpa using h
    rcases hnext with rfl | rfl <;> simp
  all_goals (repeat' split at h) <;> simp_all

theorem Section.exec_admission (item : Section) :
    (item.exec input shared).1.admission = shared.admission := by
  cases item with
  | state step => rfl
  | call step =>
    cases step <;> simp only [Section.exec, CallStep.exec] <;> (repeat' split) <;> rfl

theorem Section.exec_pump (item : Section) :
    (item.exec input shared).1.pump = shared.pump := by
  cases item with
  | state step => rfl
  | call step =>
    cases step <;> simp only [Section.exec, CallStep.exec] <;> (repeat' split) <;> rfl

theorem Section.drawn_le_exec (item : Section) :
    shared.drawn ≤ (item.exec input shared).1.drawn := by
  cases item with
  | state step => exact Nat.le_refl _
  | call step =>
    cases step <;> simp only [Section.exec, CallStep.exec] <;> (repeat' split) <;>
      first | exact Nat.le_refl _ | exact Nat.le_succ _

theorem Section.exec_drawn (item : Section) {id : Nat} (h : shared.Drawn id) :
    (item.exec input shared).1.Drawn id := by
  have hle := item.drawn_le_exec input shared
  unfold Shared.Drawn Shared.nextId at h ⊢
  rw [item.exec_admission input shared]
  exact h.imp_right fun hid => ⟨hid.1, by omega⟩

end Frame

/-! ## Steps that hand ids on -/

/-- What ids must be for every step of a line to hand them on. -/
structure Conserves (held : Shared → List Nat) (carried : Section → List Nat) : Prop where
  run : ∀ (shared : Shared) (input : Input) (item : Section), ∃ fresh,
    HandsOn held Shared.Drawn shared (item.exec input shared).1 (carried item)
      ((item.exec input shared).2.flatMap carried) fresh
  pump : ∀ shared after : Shared, shared.PumpMoves after → ∀ id,
    (held after).count id ≤ (held shared).count id
  submit : ∀ job caller, carried (.call (.submit job caller)) = [job.id]
  others : ∀ item, (∀ job caller, item ≠ .call (.submit job caller)) →
    (∀ job caller, item ≠ .call (.insert job caller)) →
    (∀ job caller, item ≠ .call (.send job caller)) →
    (∀ job reply, item ≠ .call (.deliver job reply)) →
    (∀ job, item ≠ .state (.publishRelease job)) → carried item = []
  /-- Nothing else that a step changes is part of what is held. -/
  elsewhere : ∀ (shared : Shared) admission drawn messages replies connected,
    held { shared with admission, drawn, messages, replies, connected } = held shared

variable {held : Shared → List Nat} {carried : Section → List Nat}

theorem Shared.not_drawn_nextId (shared : Shared) : ¬shared.Drawn shared.nextId := by
  unfold Shared.Drawn Shared.nextId
  omega

theorem handsOn_same {shared after : Shared} {before next : List Nat}
    (hcount : ∀ id, (held after).count id + next.count id ≤
      (held shared).count id + before.count id)
    (hdrawn : ∀ id, shared.Drawn id → after.Drawn id) :
    HandsOn held Shared.Drawn shared after before next [] where
  count := by simpa using hcount
  nodup := List.nodup_nil
  unused := by simp
  kept := hdrawn
  fresh := by simp

theorem handsOn_draw {shared after : Shared} {before next : List Nat}
    (hadmission : after.admission = shared.admission) (hdrawn : after.drawn = shared.drawn + 1)
    (hcount : ∀ id, (held after).count id + next.count id ≤
      [shared.nextId].count id + ((held shared).count id + before.count id)) :
    HandsOn held Shared.Drawn shared after before next [shared.nextId] where
  count := hcount
  nodup := List.nodup_singleton _
  unused := by simpa using shared.not_drawn_nextId
  kept := by
    intro id h
    unfold Shared.Drawn Shared.nextId at h ⊢
    rw [hadmission, hdrawn]
    exact h.imp_right fun hid => ⟨hid.1, by omega⟩
  fresh := by
    intro id hid
    rw [List.mem_singleton] at hid
    subst hid
    unfold Shared.Drawn Shared.nextId
    omega

theorem handsOn_elsewhere (h : Conserves held carried) (shared : Shared)
    (messages : List Message) (replies : List (Nat × Reply)) (connected : Bool) :
    HandsOn held Shared.Drawn shared { shared with messages, replies, connected } [] [] [] := by
  apply handsOn_same
  · intro id
    exact Nat.le_of_eq (by rw [h.elsewhere shared])
  · exact fun _ => id

theorem Message.sections_carried (h : Conserves held carried) (session : Session)
    (message : Message) : (message.sections session).flatMap carried = [] := by
  cases message <;> simp only [Message.sections] <;> (repeat' split) <;> simp [h.others]

theorem Entry.start_handsOn (h : Conserves held carried) (shared : Shared) (entry : Entry) :
    ∃ fresh, HandsOn held Shared.Drawn shared (entry.start shared).1 []
      ((entry.start shared).2.flatMap carried) fresh := by
  by_cases hcall : ∃ asked, entry = .call asked
  · obtain ⟨asked, rfl⟩ := hcall
    refine ⟨[shared.nextId], handsOn_draw rfl rfl ?_⟩
    intro id
    have hheld : held shared.draw = held shared := h.elsewhere shared _ _ _ _ _
    simp only [Entry.start, List.flatMap_cons, h.submit, hheld, List.flatMap_nil, List.append_nil]
    omega
  · have hcarried : (entry.start shared).2.flatMap carried = [] := by
      cases entry <;> simp only [Entry.start] <;> (repeat' split) <;> simp_all [h.others]
    have hshared : (entry.start shared).1 = shared := by
      cases entry <;> simp_all [Entry.start]
    rw [hcarried, hshared]
    exact ⟨[], handsOn_same (by simp) (fun _ => id)⟩

namespace Line
variable {line after : Line} {act : LineAct}

theorem linear_moves (h : Conserves held carried) (hmoves : line.Moves act after)
    (hline : line.Linear held carried Shared.Drawn) : after.Linear held carried Shared.Drawn := by
  cases hmoves with
  | stays => exact hline
  | registers hspawned =>
    apply hline.put [openerJob]
    constructor
    · intro id
      simp only [List.flatMap_cons, h.submit, List.flatMap_nil, List.append_nil]
      rw [h.elsewhere line.shared .registered]
      omega
    · exact List.nodup_singleton _
    · intro id hid
      rw [List.mem_singleton] at hid
      subst hid
      simp [Shared.Drawn, hspawned]
    · intro id hid
      exact hid.imp_left fun hopener => ⟨hopener.1, by simp⟩
    · intro id hid
      exact Or.inl ⟨List.mem_singleton.mp hid, by simp⟩
  | turnsAway hspawned =>
    apply hline.put []
    apply handsOn_same
    · intro id
      simp only [List.flatMap_cons, List.flatMap_nil, List.append_nil]
      rw [h.elsewhere line.shared .turnedAway, h.others _ (by simp) (by simp) (by simp) (by simp)
        (by simp)]
      simp
    · intro id hid
      exact hid.imp_left fun hopener => ⟨hopener.1, by simp⟩
  | starts n entry hregistered hidle =>
    obtain ⟨fresh, hstep⟩ := entry.start_handsOn h line.shared
    apply hline.put fresh
    rw [hidle]
    exact hstep
  | runs party input head rest hprogram =>
    rw [← Threads.advance_cons hprogram]
    exact hline.advance party fun head => h.run line.shared input head
  | pumps input after hmoves =>
    apply hline.onShared .opener []
    apply handsOn_same
    · intro id
      exact h.pump line.shared after hmoves id
    · intro id hid
      cases hmoves <;> exact hid
  | reads message rest hreader hreading hmessages =>
    apply hline.put []
    rw [hreader, message.sections_carried h]
    exact handsOn_elsewhere h line.shared rest _ _
  | ends hreader hreading hmessages hconnected =>
    apply hline.put []
    rw [hreader]
    apply handsOn_same
    · simp [h.others]
    · exact fun _ => id
  | reports message hreport => exact hline.onShared .opener [] (handsOn_elsewhere h line.shared _ _ _)
  | replies job reply hforwarded hfirst =>
    exact hline.onShared .opener [] (handsOn_elsewhere h line.shared _ _ _)
  | exits => exact hline.onShared .opener [] (handsOn_elsewhere h line.shared _ _ _)

end Line

/-! ## Jobs -/

def PumpState.writes : PumpState → List Job
  | .writing job => [job]
  | _ => []

def Shared.jobIds (shared : Shared) : List Nat :=
  shared.queue.map Job.id ++ shared.pump.writes.map Job.id ++ shared.forwarded.map Job.id ++
    shared.turnedBack

theorem Shared.count_jobIds (shared : Shared) (id : Nat) :
    shared.jobIds.count id = (shared.queue.map Job.id).count id +
      (shared.pump.writes.map Job.id).count id + (shared.forwarded.map Job.id).count id +
        shared.turnedBack.count id := by
  simp only [Shared.jobIds, List.count_append]

def Section.unsentJob : Section → List Nat
  | .call (.submit job _) | .call (.insert job _) | .call (.send job _) => [job.id]
  | _ => []

theorem StateStep.exec_unsentJob (session : Session) (input : Input) (step : StateStep) :
    (step.exec session input).2.flatMap Section.unsentJob = [] := by
  rw [List.flatMap_eq_nil_iff]
  intro item hitem
  cases item with
  | state step => rfl
  | call next =>
    rcases StateStep.call_next session input hitem with rfl | ⟨why, rfl⟩ | ⟨job, rfl, _⟩ <;> rfl

theorem CallStep.handsOn_jobIds {shared after : Shared} {input : Input} {step : CallStep}
    {next : List Section} (hmoves : step.Moves shared input after next)
    (hdrawn : ∀ id, shared.Drawn id → after.Drawn id) : ∃ fresh,
    HandsOn Shared.jobIds Shared.Drawn shared after (Section.unsentJob (.call step))
      (next.flatMap Section.unsentJob) fresh := by
  cases hmoves with
  | releaseSubmits call =>
    refine ⟨[shared.nextId], handsOn_draw rfl rfl ?_⟩
    intro id
    simp only [Section.unsentJob, List.flatMap_cons, List.flatMap_nil, List.append_nil]
    have hheld : shared.draw.jobIds = shared.jobIds := rfl
    rw [hheld]
    omega
  | notifies hpumping =>
    refine ⟨[shared.nextId], handsOn_draw rfl rfl ?_⟩
    intro id
    simp only [Shared.count_jobIds, Shared.enqueue, Shared.draw, List.map_append, List.map_cons,
      List.map_nil, List.count_append, Section.unsentJob, List.flatMap_nil]
    omega
  | notifiesNobody hpumping =>
    refine ⟨[], handsOn_same (fun id => Nat.le_refl _) hdrawn⟩
  | sends job caller hpumping =>
    refine ⟨[], handsOn_same ?_ hdrawn⟩
    intro id
    simp only [Shared.count_jobIds, Shared.enqueue, Section.unsentJob, List.map_append,
      List.map_cons, List.map_nil, List.count_append, List.flatMap_cons, List.flatMap_nil,
      List.count_nil]
    omega
  | turnsBack job caller hpumping =>
    refine ⟨[], handsOn_same ?_ hdrawn⟩
    intro id
    simp only [Shared.count_jobIds, Shared.removeWaiter, Shared.setWaiters, Shared.onSession,
      Section.unsentJob, List.count_cons, List.flatMap_cons, List.flatMap_nil, List.append_nil]
    omega
  | closes job caller preserve hanswered =>
    refine ⟨[], handsOn_same ?_ hdrawn⟩
    intro id
    simp only [Session.expired]
    split <;> exact Nat.le_refl _
  | submitRefused job caller why =>
    exact ⟨[], handsOn_same (fun id => Nat.le_add_right _ _) hdrawn⟩
  | _ => exact ⟨[], handsOn_same (fun id => Nat.le_refl _) hdrawn⟩

theorem jobIds_conserved : Conserves Shared.jobIds Section.unsentJob where
  run := by
    intro shared input item
    cases item with
    | state step =>
      refine ⟨[], handsOn_same ?_ fun id => Section.exec_drawn input shared _⟩
      intro id
      simp only [Section.exec, StateStep.exec_unsentJob]
      exact Nat.le_refl _
    | call step =>
      exact CallStep.handsOn_jobIds (step.exec_moves shared input) fun id =>
        Section.exec_drawn input shared (.call step)
  pump := by
    intro shared after hmoves id
    cases hmoves with
    | rests => exact Nat.le_refl _
    | gates now job rest hpump hqueue =>
      simp only [Shared.count_jobIds, Shared.gateJob, hpump, hqueue, List.map_cons,
        List.count_cons]
      split <;> simp only [PumpState.writes, List.map_nil, List.map_cons, List.count_cons,
        List.count_nil] <;> omega
    | writes job hpump hconnected =>
      simp only [Shared.count_jobIds, hpump, PumpState.writes, List.map_append, List.map_cons,
        List.map_nil, List.count_append, List.count_nil]
      omega
    | turns job reply last hpump =>
      simp only [Shared.count_jobIds, hpump, PumpState.writes, List.map_nil, List.count_nil]
      omega
    | responds job reply last hpump =>
      cases last <;> exact Nat.le_of_eq (by rw [Shared.count_jobIds, Shared.count_jobIds, hpump]; rfl)
    | stops hpump =>
      simp only [Shared.count_jobIds, hpump, PumpState.writes, List.map_nil, List.count_nil]
      omega
  submit := fun job caller => rfl
  others := by
    intro item hsubmit hinsert hsend hdeliver hpublish
    cases item with
    | state step => rfl
    | call step => cases step <;> simp_all [Section.unsentJob]
  elsewhere := by
    intro shared admission drawn messages replies connected
    rfl

def PumpState.responds : PumpState → List Nat
  | .responding job _ _ => [job]
  | _ => []

def Shared.takenIds (shared : Shared) : List Nat := shared.jobIds ++ shared.pump.responds

theorem takenIds_conserved : Conserves Shared.takenIds Section.unsentJob where
  run := by
    intro shared input item
    obtain ⟨fresh, hstep⟩ := jobIds_conserved.run shared input item
    refine ⟨fresh, hstep.beside ?_⟩
    rw [item.exec_pump input shared]
  pump := by
    intro shared after hmoves id
    have hjobs := jobIds_conserved.pump shared after hmoves id
    simp only [Shared.takenIds, List.count_append]
    cases hmoves with
    | gates now job rest hpump hqueue =>
      simp only [Shared.count_jobIds, Shared.gateJob, hpump, hqueue, List.map_cons,
        List.count_cons]
      split <;> simp only [PumpState.writes, PumpState.responds, List.map_nil, List.map_cons,
        List.count_cons, List.count_nil] <;> omega
    | turns job reply last hpump =>
      simp only [Shared.count_jobIds, hpump, PumpState.writes, PumpState.responds, List.map_nil,
        List.map_cons, List.count_cons, List.count_nil]
      omega
    | responds job reply last hpump =>
      apply Nat.add_le_add hjobs
      cases last <;> exact Nat.zero_le _
    | rests => exact Nat.le_refl _
    | _ => exact Nat.add_le_add hjobs (Nat.zero_le _)
  submit := jobIds_conserved.submit
  others := jobIds_conserved.others
  elsewhere := by
    intro shared admission drawn messages replies connected
    rfl

/-! ## Answers -/

def Shared.answerIds (shared : Shared) : List Nat :=
  shared.waiters.map Waiting.job ++ shared.answers.map Prod.fst

def Section.owedAnswer : Section → List Nat
  | .call (.submit job _) | .call (.insert job _) => [job.id]
  | .call (.deliver job _) | .state (.publishRelease job) => [job]
  | _ => []

theorem Shared.count_answerIds (shared : Shared) (id : Nat) :
    shared.answerIds.count id = (shared.waiters.map Waiting.job).count id +
      (shared.answers.map Prod.fst).count id := by
  simp only [Shared.answerIds, List.count_append]

theorem StateStep.publish_notMem (session : Session) (input : Input) (step : StateStep) (job : Nat) :
    .state (.publishRelease job) ∉ (step.exec session input).2 := by
  cases step <;> simp only [StateStep.exec]
  case returned caller reply =>
    cases caller <;> simp only [Session.returned, Session.opened, Session.releaseReturned] <;>
      (repeat' split) <;> simp
  case settleVerdict reply =>
    cases reply <;> simp only [Session.settleVerdict] <;> (repeat' split) <;> simp
  case workerExited =>
    simp only [Session.workerExited]
    (repeat' split) <;> simp
  all_goals (repeat' split) <;> simp [Session.killIfMoved]

theorem StateStep.exec_owedAnswer (session : Session) (input : Input) (step : StateStep) :
    (step.exec session input).2.flatMap Section.owedAnswer = Section.owedAnswer (.state step) := by
  by_cases hpublish : ∃ job, step = .publishRelease job
  · obtain ⟨job, rfl⟩ := hpublish
    rfl
  · have hnone : Section.owedAnswer (.state step) = [] := by
      cases step <;> first | rfl | exact absurd ⟨_, rfl⟩ hpublish
    rw [hnone, List.flatMap_eq_nil_iff]
    intro item hitem
    cases item with
    | state next =>
      cases next <;> first | rfl | exact absurd hitem (publish_notMem session input step _)
    | call next =>
      rcases StateStep.call_next session input hitem with rfl | ⟨why, rfl⟩ | ⟨job, rfl, rfl⟩
      · rfl
      · rfl
      · exact absurd ⟨job, rfl⟩ hpublish

theorem Shared.count_removeWaiter (shared : Shared) (job id : Nat) :
    ((shared.removeWaiter job).waiters.map Waiting.job).count id =
      if id = job then 0 else (shared.waiters.map Waiting.job).count id := by
  have hwaiters : (shared.removeWaiter job).waiters =
      shared.waiters.filter fun waiting => waiting.job != job := rfl
  rw [hwaiters]
  induction shared.waiters with
  | nil => simp
  | cons waiting rest ih =>
    rw [List.filter_cons]
    split
    · rename_i hother
      rw [List.map_cons, List.map_cons, List.count_cons, List.count_cons, ih]
      split
      · rename_i hid
        subst hid
        simp_all
      · rfl
    · rename_i hsame
      rw [List.map_cons, List.count_cons, ih]
      split
      · rfl
      · rename_i hid
        have hjob : waiting.job = job := by simpa using hsame
        have hne : (waiting.job == id) = false := by
          rw [hjob]
          exact beq_false_of_ne (Ne.symm hid)
        simp [hne]

theorem Shared.count_of_waiter {shared : Shared} {job : Nat} {waiting : Waiting}
    (h : shared.waiter job = some waiting) : 0 < (shared.waiters.map Waiting.job).count job := by
  rw [List.count_pos_iff]
  refine List.mem_map.mpr ⟨waiting, List.mem_of_find?_eq_some h, ?_⟩
  exact beq_iff_eq.mp (List.find?_some h :)

theorem Shared.count_taken {job : Nat} {waiting : Waiting} (shared : Shared)
    (hwaiter : shared.waiter job = some waiting) (id : Nat) :
    (shared.removeWaiter job).answerIds.count id + [job].count id ≤ shared.answerIds.count id := by
  have hpos := Shared.count_of_waiter hwaiter
  have hsame : (shared.removeWaiter job).answers = shared.answers := rfl
  rw [count_answerIds, count_answerIds, hsame, shared.count_removeWaiter job id]
  by_cases hid : id = job
  · subst hid
    rw [if_pos rfl, List.count_singleton_self]
    omega
  · have hnone : [job].count id = 0 := List.count_eq_zero.mpr (by simpa using hid)
    rw [if_neg hid, hnone]
    exact Nat.le_refl _

theorem Shared.count_sent (shared : Shared) (job : Nat) (reply : Reply) (id : Nat) :
    (shared.sendAnswer job reply).answerIds.count id =
      shared.answerIds.count id + [job].count id := by
  have hwaiters : (shared.sendAnswer job reply).waiters = shared.waiters := rfl
  rw [count_answerIds, count_answerIds, hwaiters]
  simp only [Shared.sendAnswer, List.map_append, List.map_cons, List.map_nil, List.count_append]
  omega

theorem Shared.count_failOutstanding (shared : Shared) (why : String) (id : Nat) :
    (shared.failOutstanding why).answerIds.count id = shared.answerIds.count id := by
  have hwaiters : (shared.failOutstanding why).waiters = [] := rfl
  rw [count_answerIds, count_answerIds, hwaiters]
  simp only [Shared.failOutstanding, List.map_append, List.map_map, List.count_append, List.map_nil,
    List.count_nil, Shared.setWaiters, Shared.onSession]
  have hjobs : (Prod.fst ∘ fun waiting : Waiting => (waiting.job, Reply.error (.lost why))) =
      Waiting.job := rfl
  rw [hjobs]
  omega

theorem CallStep.count_answerIds {shared after : Shared} {input : Input} {step : CallStep}
    {next : List Section} (hmoves : step.Moves shared input after next)
    (hdraw : ∀ call, step ≠ .release call) (id : Nat) :
    after.answerIds.count id + (next.flatMap Section.owedAnswer).count id ≤
      shared.answerIds.count id + (Section.owedAnswer (.call step)).count id := by
  cases hmoves with
  | inserts job caller =>
    simp only [Shared.answerIds, Shared.setWaiters, Shared.onSession, Shared.waiters,
      Section.owedAnswer, List.map_cons, List.cons_append, List.count_cons, List.flatMap_cons,
      List.flatMap_nil, List.append_nil, List.count_nil]
    omega
  | turnsBack job caller hpumping =>
    have hremoved := shared.count_removeWaiter job.id id
    have hafter := (shared.removeWaiter job.id).count_answerIds id
    have hsame : (shared.removeWaiter job.id).answers = shared.answers := rfl
    rw [hsame, hremoved] at hafter
    have hbefore := shared.count_answerIds id
    apply Nat.add_le_add _ (Nat.zero_le _)
    refine Nat.le_trans (Nat.le_of_eq hafter) ?_
    split <;> omega
  | publishes job waiting hwaiter => exact shared.count_taken hwaiter id
  | answers job reply waiting hwaiter => exact shared.count_taken hwaiter id
  | delivers job reply hreceived => exact Nat.le_of_eq (shared.count_sent job reply id)
  | settles reply hclosed => exact Nat.le_of_eq (shared.count_sent openerJob reply id)
  | fails why =>
    rw [shared.count_failOutstanding]
    exact Nat.le_refl _
  | drains =>
    have hfail := shared.count_failOutstanding (workerGone shared.session.id) id
    exact Nat.le_of_eq (congrArg (· + 0) hfail)
  | submitRefused job caller why => exact Nat.le_add_right _ _
  | closes job caller preserve hanswered =>
    simp only [Session.expired]
    split <;> exact Nat.le_refl _
  | releasePreserved call hkernel => exact Nat.le_refl _
  | releaseSubmits call => exact absurd rfl (hdraw call)
  | _ => exact Nat.le_refl _

theorem CallStep.handsOn_answerIds {shared after : Shared} {input : Input} {step : CallStep}
    {next : List Section} (hmoves : step.Moves shared input after next)
    (hdrawn : ∀ id, shared.Drawn id → after.Drawn id) : ∃ fresh,
    HandsOn Shared.answerIds Shared.Drawn shared after (Section.owedAnswer (.call step))
      (next.flatMap Section.owedAnswer) fresh := by
  by_cases hrelease : ∃ call, step = .release call
  · obtain ⟨call, rfl⟩ := hrelease
    cases hmoves with
    | releasePreserved _ hkernel => exact ⟨[], handsOn_same (fun id => Nat.le_refl _) hdrawn⟩
    | releaseSubmits _ =>
      refine ⟨[shared.nextId], handsOn_draw rfl rfl ?_⟩
      intro id
      exact Nat.le_of_eq (Nat.add_comm _ _)
  · refine ⟨[], handsOn_same (CallStep.count_answerIds hmoves ?_) hdrawn⟩
    exact fun call hcall => hrelease ⟨call, hcall⟩

theorem Session.gate_waiters (session : Session) (now : Nat) (job : Job) :
    (session.gate now job).1.waiters = session.waiters := by
  unfold Session.gate
  split <;> rfl

theorem Shared.count_respond (shared : Shared) (job : Nat) (reply : Reply) (id : Nat) :
    (shared.respond job reply).answerIds.count id ≤ shared.answerIds.count id := by
  have hwaiters : (shared.respond job reply).waiters = (shared.removeWaiter job).waiters := rfl
  cases hwaiter : shared.waiter job with
  | none =>
    rw [count_answerIds, count_answerIds, hwaiters, shared.count_removeWaiter job id]
    simp only [Shared.respond, hwaiter, Option.isSome_none, Bool.false_eq_true, if_false,
      List.append_nil]
    split <;> omega
  | some waiting =>
    have htaken := shared.count_taken hwaiter id
    have hsame : (shared.removeWaiter job).answers = shared.answers := rfl
    rw [count_answerIds (shared.removeWaiter job), hsame] at htaken
    rw [count_answerIds (shared.respond job reply), hwaiters]
    simp only [Shared.respond, hwaiter, Option.isSome_some, if_true, List.map_append,
      List.map_cons, List.map_nil, List.count_append]
    omega

theorem answerIds_conserved : Conserves Shared.answerIds Section.owedAnswer where
  run := by
    intro shared input item
    have hdrawn : ∀ id, shared.Drawn id → (item.exec input shared).1.Drawn id :=
      fun id => Section.exec_drawn input shared item
    cases item with
    | state step =>
      refine ⟨[], handsOn_same ?_ hdrawn⟩
      intro id
      have hheld : (shared.onSession (step.exec shared.session input).1).answerIds =
          shared.answerIds := by
        unfold Shared.answerIds Shared.waiters Shared.onSession
        rw [StateStep.exec_waiters]
      simp only [Section.exec, StateStep.exec_owedAnswer, hheld]
      exact Nat.le_refl _
    | call step => exact CallStep.handsOn_answerIds (step.exec_moves shared input) hdrawn
  pump := by
    intro shared after hmoves id
    cases hmoves with
    | gates now job rest hpump hqueue =>
      apply Nat.le_of_eq
      simp only [Shared.answerIds, Shared.gateJob, Shared.waiters, Session.gate_waiters]
    | responds job reply last hpump => exact shared.count_respond job reply id
    | _ => exact Nat.le_refl _
  submit := fun job caller => rfl
  others := by
    intro item hsubmit hinsert hsend hdeliver hpublish
    cases item with
    | state step => cases step <;> simp_all [Section.owedAnswer]
    | call step => cases step <;> simp_all [Section.owedAnswer]
  elsewhere := by
    intro shared admission drawn messages replies connected
    rfl

/-! ## Runs -/

namespace Line

theorem spawned_linear (held : Shared → List Nat) (carried : Section → List Nat)
    {session : Session} (hheld : held { session } = []) :
    (spawned session).Linear held carried Shared.Drawn where
  once := by simp [spawned, hheld]
  apart := by simp [spawned]
  heldDrawn := by simp [spawned, hheld]
  carriedDrawn := by simp [spawned]

theorem jobIds_linear (session : Session) (acts : List LineAct) :
    (run step (spawned session) acts).Linear Shared.jobIds Section.unsentJob Shared.Drawn := by
  refine run_invariant (fun line : Line => line.Linear Shared.jobIds Section.unsentJob Shared.Drawn)
    (fun _ _ => True) ?_ (spawned_linear _ _ rfl) (fun _ _ => trivial)
  intro line act hline _
  exact linear_moves jobIds_conserved (line.step_moves act) hline

theorem takenIds_linear (session : Session) (acts : List LineAct) :
    (run step (spawned session) acts).Linear Shared.takenIds Section.unsentJob Shared.Drawn := by
  refine run_invariant (fun line : Line => line.Linear Shared.takenIds Section.unsentJob Shared.Drawn)
    (fun _ _ => True) ?_ (spawned_linear _ _ rfl) (fun _ _ => trivial)
  intro line act hline _
  exact linear_moves takenIds_conserved (line.step_moves act) hline

theorem answerIds_linear {session : Session} (hwaiters : session.waiters = [])
    (acts : List LineAct) :
    (run step (spawned session) acts).Linear Shared.answerIds Section.owedAnswer Shared.Drawn := by
  refine run_invariant
    (fun line : Line => line.Linear Shared.answerIds Section.owedAnswer Shared.Drawn)
    (fun _ _ => True) ?_ (spawned_linear _ _ ?_) (fun _ _ => trivial)
  · intro line act hline _
    exact linear_moves answerIds_conserved (line.step_moves act) hline
  · simp [Shared.answerIds, Shared.waiters, hwaiters]

end Line

end WindbgMcp.Engine
