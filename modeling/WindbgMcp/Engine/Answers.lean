import WindbgMcp.Engine.Calls

/-! Calls and their answers.  A call is answered through its waiter by the reader, by
the pump or by a teardown, or else its submission comes back with an error.  The reader
fails what is outstanding once, as it finishes; what is queued after that is for the pump
to answer, and a pump that gives up drops it. -/
namespace WindbgMcp.Engine
open Library Threads

/-- What a call has been told.  When its submission came back with an error, whatever
was sent to its waiter before that went to a receiver nobody has. -/
def Shared.received (shared : Shared) (id : Nat) : List Reply :=
  List.replicate (shared.turnedBack.count id) (.error (.lost (workerGone shared.session.id))) ++
    if id ∈ shared.turnedBack then []
    else (shared.answers.filter fun answer => answer.1 == id).map Prod.snd

def Section.Sends (id : Nat) : Section → Prop
  | .call (.send job _) => job.id = id
  | _ => False

namespace Line

def Submitting (line : Line) (id : Nat) : Prop := ∃ party, line.Owes party (Section.Sends id)

/-- Once the worker is gone, the reader has finished and the pump has given up, no call
that was submitted is left in the waiters. -/
def AllAnswered (line : Line) : Prop :=
  line.shared.connected = false → line.shared.reading = false → line.shared.pump = .stopped →
    ∀ waiting ∈ line.shared.waiters, line.Submitting waiting.job

end Line

/-- If the pump gives up after the reader has finished, nothing it still has queued is
waited for. -/
def LineAct.LeavesNobody (line : Line) : LineAct → Prop
  | .pump _ => line.shared.pump = .stopping → line.shared.reading = false →
    ∀ job ∈ line.shared.queue, line.shared.waiter job.id = none
  | _ => True

instance (line : Line) : (act : LineAct) → Decidable (act.LeavesNobody line)
  | .pump _ =>
    inferInstanceAs (Decidable (line.shared.pump = .stopping → line.shared.reading = false →
      ∀ job ∈ line.shared.queue, line.shared.waiter job.id = none))
  | .admits _ | .start _ _ | .run _ _ | .read | .emit _ | .exit => isTrue trivial

/-! ## No call is answered twice -/

theorem Shared.received_length (shared : Shared) (id : Nat) (hjobs : shared.jobIds.Nodup)
    (hanswers : shared.answerIds.Nodup) : (shared.received id).length ≤ 1 := by
  have hjob := List.nodup_iff_count_le_one.mp hjobs id
  rw [shared.count_jobIds] at hjob
  simp only [received, List.length_append, List.length_replicate]
  split
  · rw [List.length_nil]
    omega
  · rename_i hsent
    have hanswer := List.nodup_iff_count_le_one.mp hanswers id
    have hcount : ((shared.answers.filter fun answer => answer.1 == id).map Prod.snd).length =
        (shared.answers.map Prod.fst).count id := by
      rw [List.length_map, List.count, List.countP_map, List.countP_eq_length_filter]
      rfl
    rw [shared.count_answerIds] at hanswer
    rw [hcount, List.count_eq_zero.mpr hsent]
    omega

/-! ## Who still looks after a waiter -/

def Shared.inHand (shared : Shared) : List Nat :=
  shared.queue.map Job.id ++ shared.pump.writes.map Job.id ++ shared.pump.responds

structure Shared.Ends (shared : Shared) : Prop where
  gone : shared.reading = false → shared.connected = false
  dropped : shared.pump = .stopped → shared.queue = []

def Section.Ends (shared : Shared) (item : Section) : Prop :=
  item = .call .lastAnswers → shared.connected = false

/-- Once the reader has finished, a waiter belongs to a job that the pump has in hand or
is about to be sent. -/
structure Line.Attended (line : Line) : Prop where
  unopened : line.shared.admission = .spawned → line.programs .opener = []
  ends : line.Keeps Shared.Ends Section.Ends
  waiters : line.shared.reading = false → ∀ waiting ∈ line.shared.waiters,
    waiting.job ∈ line.shared.inHand ∨ line.Submitting waiting.job

section Moves
variable {shared after : Shared} {input : Input}

theorem Shared.mem_removeWaiter {job : Nat} {waiting : Waiting}
    (h : waiting ∈ (shared.removeWaiter job).waiters) :
    waiting ∈ shared.waiters ∧ waiting.job ≠ job := by
  obtain ⟨hmem, hother⟩ := List.mem_filter.mp h
  exact ⟨hmem, by simpa using hother⟩

theorem CallStep.Moves.attends {step : CallStep} {next : List Section}
    (hmoves : step.Moves shared input after next) {waiting : Waiting}
    (hwaiting : waiting ∈ after.waiters) :
    waiting.job ∈ after.inHand ∨ (∃ item ∈ next, item.Sends waiting.job) ∨
      waiting ∈ shared.waiters ∧ ¬Section.Sends waiting.job (.call step) := by
  cases hmoves with
  | inserts job caller =>
    rcases List.mem_cons.mp hwaiting with rfl | hold
    · exact Or.inr (Or.inl ⟨_, List.mem_singleton_self _, rfl⟩)
    · exact Or.inr (Or.inr ⟨hold, id⟩)
  | sends job caller hpumping =>
    by_cases hsame : job.id = waiting.job
    · apply Or.inl
      simp [Shared.inHand, Shared.enqueue, hsame]
    · exact Or.inr (Or.inr ⟨hwaiting, hsame⟩)
  | turnsBack job caller hpumping =>
    obtain ⟨hold, hother⟩ := Shared.mem_removeWaiter hwaiting
    exact Or.inr (Or.inr ⟨hold, Ne.symm hother⟩)
  | publishes job _ hwaiter => exact Or.inr (Or.inr ⟨(Shared.mem_removeWaiter hwaiting).1, id⟩)
  | answers job reply _ hwaiter => exact Or.inr (Or.inr ⟨(Shared.mem_removeWaiter hwaiting).1, id⟩)
  | fails why => cases hwaiting
  | drains => cases hwaiting
  | _ => exact Or.inr (Or.inr ⟨hwaiting, id⟩)

theorem CallStep.Moves.reading {step : CallStep} {next : List Section}
    (hmoves : step.Moves shared input after next) (h : after.reading = false) {waiting : Waiting}
    (hwaiting : waiting ∈ after.waiters) : shared.reading = false := by
  cases hmoves with
  | drains => cases hwaiting
  | _ => exact h

theorem CallStep.Moves.inHand {step : CallStep} {next : List Section}
    (hmoves : step.Moves shared input after next) {id : Nat} (h : id ∈ shared.inHand) :
    id ∈ after.inHand := by
  cases hmoves with
  | sends job caller hpumping =>
    simp only [Shared.inHand, Shared.enqueue, List.map_append, List.mem_append] at h ⊢
    rcases h with (hqueue | hwriting) | hresponding
    · exact Or.inl (Or.inl (Or.inl hqueue))
    · exact Or.inl (Or.inr hwriting)
    · exact Or.inr hresponding
  | notifies hpumping =>
    simp only [Shared.inHand, Shared.enqueue, Shared.draw, List.map_append, List.mem_append] at h ⊢
    rcases h with (hqueue | hwriting) | hresponding
    · exact Or.inl (Or.inl (Or.inl hqueue))
    · exact Or.inl (Or.inr hwriting)
    · exact Or.inr hresponding
  | _ => exact h

theorem Shared.PumpMoves.attends (hmoves : shared.PumpMoves after)
    (hgone : shared.connected = false)
    (hdrops : shared.pump = .stopping → ∀ job ∈ shared.queue, shared.waiter job.id = none)
    {waiting : Waiting} (hwaiting : waiting ∈ after.waiters) :
    waiting ∈ shared.waiters ∧ (waiting.job ∈ shared.inHand → waiting.job ∈ after.inHand) := by
  cases hmoves with
  | rests => exact ⟨hwaiting, id⟩
  | gates now job rest hpump hqueue =>
    have hwaiters : (shared.gateJob now job rest).waiters = shared.waiters :=
      shared.session.gate_waiters now job
    rw [hwaiters] at hwaiting
    refine ⟨hwaiting, ?_⟩
    simp only [Shared.inHand, Shared.gateJob, hpump, hqueue]
    split <;> simp [PumpState.writes, PumpState.responds] <;> exact Or.symm
  | writes job hpump hconnected =>
    rw [hgone] at hconnected
    cases hconnected
  | turns job reply last hpump =>
    refine ⟨hwaiting, ?_⟩
    simp [Shared.inHand, hpump, PumpState.writes, PumpState.responds]
  | responds job reply last hpump =>
    obtain ⟨hold, hother⟩ := Shared.mem_removeWaiter hwaiting
    refine ⟨hold, ?_⟩
    cases last <;> simp [Shared.inHand, Shared.respond, Shared.removeWaiter, Shared.setWaiters,
      Shared.onSession, hpump, PumpState.writes, PumpState.responds, hother]
  | stops hpump =>
    refine ⟨hwaiting, ?_⟩
    intro hinHand
    have hqueued : waiting.job ∈ shared.queue.map Job.id := by
      simpa [Shared.inHand, hpump, PumpState.writes, PumpState.responds] using hinHand
    obtain ⟨job, hjob, hid⟩ := List.mem_map.mp hqueued
    have hnone := List.find?_eq_none.mp (hdrops hpump job hjob) waiting hwaiting
    rw [hid] at hnone
    exact absurd (beq_self_eq_true waiting.job) hnone

end Moves

namespace Line

theorem Submitting.elsewhere {line : Line} {id : Nat} (h : line.Submitting id) {party : Party}
    (hidle : line.programs party = []) {shared : Shared} {program : List Section} :
    Submitting (line.put party shared program) id := by
  obtain ⟨other, howes⟩ := h
  exact ⟨other, howes.idle hidle⟩

theorem Submitting.runs {line : Line} {id : Nat} (h : line.Submitting id) {party : Party}
    {head : Section} {rest : List Section} (hprogram : line.programs party = head :: rest)
    (hhead : ¬head.Sends id) {shared : Shared} {next : List Section} :
    Submitting (line.put party shared (next ++ rest)) id := by
  obtain ⟨other, howes⟩ := h
  rcases howes.runs hprogram with ⟨_, hsends⟩ | hrest
  · exact absurd hsends hhead
  · exact ⟨other, hrest⟩

end Line

/-! ## The ends of the reader and the pump -/

section Ends
variable {shared after : Shared} {input : Input}

/-- The reader fails what is outstanding only at the end of the worker's messages. -/
theorem Section.lastAnswers_notMem (input : Input) (shared : Shared) (item : Section) :
    .call .lastAnswers ∉ (item.exec input shared).2 := by
  cases item with
  | state step =>
    intro hmem
    rcases StateStep.call_next shared.session input hmem with h | ⟨_, h⟩ | ⟨_, h, _⟩ <;> cases h
  | call step =>
    cases step with
    | close job caller preserve =>
      simp only [Section.exec, CallStep.exec]
      split
      · simp
      · cases preserve <;> simp [Session.expired]
    | _ =>
      simp only [Section.exec, CallStep.exec]
      (repeat' split) <;> simp

theorem CallStep.Moves.ends {step : CallStep} {next : List Section}
    (hmoves : step.Moves shared input after next) (h : shared.Ends)
    (hstep : step = .lastAnswers → shared.connected = false) :
    after.Ends ∧ after.connected = shared.connected := by
  cases hmoves with
  | sends job caller hpumping =>
    refine ⟨⟨h.gone, ?_⟩, rfl⟩
    intro hstopped
    simp_all [Shared.pumping, Shared.enqueue]
  | notifies hpumping =>
    refine ⟨⟨h.gone, ?_⟩, rfl⟩
    intro hstopped
    simp_all [Shared.pumping, Shared.enqueue, Shared.draw]
  | drains => exact ⟨⟨fun _ => hstep rfl, h.dropped⟩, rfl⟩
  | _ => exact ⟨⟨h.gone, h.dropped⟩, rfl⟩

theorem Section.exec_ends {item : Section} (h : shared.Ends) (hitem : item.Ends shared) :
    Sound Shared.Ends Section.Ends shared (item.exec input shared).1
      (item.exec input shared).2 := by
  have hends : (item.exec input shared).1.Ends ∧
      (item.exec input shared).1.connected = shared.connected := by
    cases item with
    | state step => exact ⟨⟨h.gone, h.dropped⟩, rfl⟩
    | call step =>
      exact (step.exec_moves shared input).ends h fun hstep => hitem (by rw [hstep])
  refine ⟨hends.1, ?_, ?_⟩
  · intro other hother hlast
    rw [hends.2]
    exact hother hlast
  · intro other hother hlast
    rw [hlast] at hother
    exact absurd hother (Section.lastAnswers_notMem input shared item)

theorem Shared.PumpMoves.ends (hmoves : shared.PumpMoves after) (h : shared.Ends) :
    after.Ends ∧ after.connected = shared.connected := by
  cases hmoves with
  | rests => exact ⟨h, rfl⟩
  | gates now job rest hpump hqueue =>
    refine ⟨⟨h.gone, ?_⟩, rfl⟩
    simp only [Shared.gateJob]
    split <;> simp
  | writes job hpump hconnected => exact ⟨⟨h.gone, by simp⟩, rfl⟩
  | turns job reply last hpump => exact ⟨⟨h.gone, by simp⟩, rfl⟩
  | responds job reply last hpump =>
    refine ⟨⟨h.gone, ?_⟩, rfl⟩
    cases last <;> simp
  | stops hpump => exact ⟨⟨h.gone, fun _ => rfl⟩, rfl⟩

end Ends

namespace Line

theorem Moves.keeps_ends {line after : Line} {act : LineAct} (hmoves : line.Moves act after)
    (h : line.Keeps Shared.Ends Section.Ends) : after.Keeps Shared.Ends Section.Ends := by
  have hshared := h.shared
  cases hmoves with
  | stays => exact h
  | registers hspawned =>
    refine Keeps.put h ⟨hshared.gone, hshared.dropped⟩ ?_ ?_
    · exact fun _ hitem => hitem
    · simp [Section.Ends]
  | turnsAway hspawned =>
    refine Keeps.put h ⟨hshared.gone, hshared.dropped⟩ ?_ ?_
    · exact fun _ hitem => hitem
    · simp [Section.Ends]
  | starts n entry hregistered hidle =>
    refine Keeps.put h ?_ ?_ ?_
    · cases entry <;> exact ⟨hshared.gone, hshared.dropped⟩
    · intro item hitem
      cases entry <;> exact hitem
    · cases entry <;> simp only [Entry.start] <;> (repeat' split) <;> simp [Section.Ends]
  | runs party input head rest hprogram => exact Keeps.runs h hprogram (Section.exec_ends hshared)
  | pumps input after hmoves =>
    obtain ⟨hends, hconnected⟩ := hmoves.ends hshared
    refine Keeps.onShared h hends ?_
    intro item hitem hlast
    rw [hconnected]
    exact hitem hlast
  | reads message rest hreader hreading hmessages =>
    refine Keeps.put h ⟨hshared.gone, hshared.dropped⟩ ?_ ?_
    · exact fun _ hitem => hitem
    · cases message <;> simp only [Message.sections] <;> (repeat' split) <;> simp [Section.Ends]
  | ends hreader hreading hmessages hconnected =>
    refine Keeps.put h hshared (fun _ hitem => hitem) ?_
    intro item _ _
    exact hconnected
  | reports message hreport =>
    exact Keeps.onShared h ⟨hshared.gone, hshared.dropped⟩ fun _ hitem => hitem
  | replies job reply hforwarded hfirst =>
    exact Keeps.onShared h ⟨hshared.gone, hshared.dropped⟩ fun _ hitem => hitem
  | exits => exact Keeps.onShared h ⟨fun _ => rfl, hshared.dropped⟩ fun _ _ _ => rfl

theorem Moves.unopened {line after : Line} {act : LineAct} (hmoves : line.Moves act after)
    (h : line.shared.admission = .spawned → line.programs .opener = []) :
    after.shared.admission = .spawned → after.programs .opener = [] := by
  cases hmoves with
  | registers hspawned => exact fun hadmission => by cases hadmission
  | turnsAway hspawned => exact fun hadmission => by cases hadmission
  | starts n entry hregistered hidle =>
    intro hadmission
    have hsame : (entry.start line.shared).1.admission = line.shared.admission := by
      cases entry <;> rfl
    rw [Threads.put_shared, hsame, hregistered] at hadmission
    cases hadmission
  | runs party input head rest hprogram =>
    intro hadmission
    rw [Threads.put_shared, Section.exec_admission] at hadmission
    have hidle := h hadmission
    rw [put_programs_of_ne]
    · exact hidle
    · rintro rfl
      rw [hidle] at hprogram
      cases hprogram
  | pumps input after hmoves =>
    intro hadmission
    apply h
    cases hmoves <;> exact hadmission
  | reads message rest hreader hreading hmessages =>
    rw [put_programs_of_ne _ (by simp)]
    exact h
  | ends hreader hreading hmessages hconnected =>
    rw [put_programs_of_ne _ (by simp)]
    exact h
  | _ => exact h

theorem Moves.attended {line after : Line} {act : LineAct} (hmoves : line.Moves act after)
    (hact : act.LeavesNobody line) (h : line.Attended) : after.Attended := by
  refine ⟨hmoves.unopened h.unopened, hmoves.keeps_ends h.ends, ?_⟩
  intro hreading waiting hwaiting
  cases hmoves with
  | stays => exact h.waiters hreading waiting hwaiting
  | registers hspawned =>
    exact (h.waiters hreading waiting hwaiting).imp_right fun hsubmitting =>
      hsubmitting.elsewhere (h.unopened hspawned)
  | turnsAway hspawned =>
    exact (h.waiters hreading waiting hwaiting).imp_right fun hsubmitting =>
      hsubmitting.elsewhere (h.unopened hspawned)
  | starts n entry hregistered hidle =>
    cases entry <;> exact (h.waiters hreading waiting hwaiting).imp_right fun hsubmitting =>
      hsubmitting.elsewhere hidle
  | runs party input head rest hprogram =>
    cases head with
    | state step =>
      have hold : waiting ∈ line.shared.waiters := by
        unfold Shared.waiters
        rw [← StateStep.exec_waiters line.shared.session input step]
        exact hwaiting
      exact (h.waiters hreading waiting hold).imp_right fun hsubmitting =>
        hsubmitting.runs hprogram (fun hsends => hsends)
    | call step =>
      have hcall := step.exec_moves line.shared input
      rcases hcall.attends hwaiting with hinHand | ⟨item, hitem, hsends⟩ | ⟨hold, hother⟩
      · exact Or.inl hinHand
      · exact Or.inr ⟨party, owes_next hitem hsends⟩
      · have hbefore : line.shared.reading = false := hcall.reading hreading hwaiting
        rcases h.waiters hbefore waiting hold with hinHand | hsubmitting
        · exact Or.inl (hcall.inHand hinHand)
        · exact Or.inr (hsubmitting.runs hprogram hother)
  | pumps input after hmoves =>
    have hbefore : line.shared.reading = false := by
      cases hmoves <;> exact hreading
    obtain ⟨hold, hinHand⟩ := hmoves.attends (h.ends.shared.gone hbefore)
      (fun hstopping => hact hstopping hbefore) hwaiting
    exact (h.waiters hbefore waiting hold).imp_left hinHand
  | reads message rest hreader hreading' hmessages =>
    exact (h.waiters hreading waiting hwaiting).imp_right fun hsubmitting =>
      hsubmitting.elsewhere hreader
  | ends hreader hreading' hmessages hconnected =>
    exact (h.waiters hreading waiting hwaiting).imp_right fun hsubmitting =>
      hsubmitting.elsewhere hreader
  | reports message hreport => exact h.waiters hreading waiting hwaiting
  | replies job reply hforwarded hfirst => exact h.waiters hreading waiting hwaiting
  | exits => exact h.waiters hreading waiting hwaiting

theorem spawned_attended (session : Session) : (spawned session).Attended where
  unopened := fun _ => rfl
  ends := by
    refine ⟨⟨?_, fun _ => rfl⟩, ?_⟩
    · intro hreading
      cases hreading
    · intro party item hitem
      cases hitem
  waiters := by
    intro hreading
    cases hreading

theorem run_attended (session : Session) {acts : List LineAct}
    (hacts : ∀ visit ∈ visits step (spawned session) acts, visit.2.LeavesNobody visit.1) :
    (run step (spawned session) acts).Attended := by
  refine run_invariant Line.Attended (fun line act => act.LeavesNobody line) ?_
    (spawned_attended session) hacts
  intro line act hline hact
  exact (line.step_moves act).attended hact hline

theorem Attended.allAnswered {line : Line} (h : line.Attended) : line.AllAnswered := by
  intro _ hreading hstopped waiting hwaiting
  apply (h.waiters hreading waiting hwaiting).resolve_left
  simp [Shared.inHand, hstopped, h.ends.shared.dropped hstopped, PumpState.writes,
    PumpState.responds]

/-- A job that is dropped while it is waited for is left in the waiters: it was queued, so
its submission is over. -/
theorem drop_abandons {line : Line} (hids : line.Linear Shared.takenIds Section.unsentJob Shared.Drawn)
    (hgone : line.shared.connected = false) (hreading : line.shared.reading = false)
    (hstopping : line.shared.pump = .stopping) {job : Job} (hjob : job ∈ line.shared.queue)
    (hwaiter : line.shared.waiter job.id ≠ none) (input : Input) :
    ¬(line.step (.pump input)).AllAnswered := by
  have hstep : line.step (.pump input) =
      line.onShared { line.shared with pump := .stopped, queue := [] } := by
    simp only [step, Shared.pumpStep, hstopping]
  rw [hstep]
  intro hanswered
  obtain ⟨waiting, hwaiting⟩ := Option.ne_none_iff_exists'.mp hwaiter
  have hid : waiting.job = job.id := beq_iff_eq.mp (List.find?_some hwaiting :)
  obtain ⟨party, item, hitem, hsends⟩ := hanswered hgone hreading rfl waiting
    (List.mem_of_find?_eq_some hwaiting)
  have hheld : job.id ∈ Shared.takenIds line.shared := by
    apply List.mem_append_left
    simp only [Shared.jobIds, List.mem_append]
    exact Or.inl (Or.inl (Or.inl (List.mem_map_of_mem hjob)))
  apply hids.not_carried hheld party
  refine List.mem_flatMap.mpr ⟨item, hitem, ?_⟩
  cases item with
  | state step => cases hsends
  | call step =>
    cases step with
    | send other caller =>
      have hsame : other.id = waiting.job := hsends
      simp [Section.unsentJob, hsame, hid]
    | _ => cases hsends

theorem run_ends (session : Session) (acts : List LineAct) :
    (run step (spawned session) acts).Keeps Shared.Ends Section.Ends := by
  refine run_invariant (fun line : Line => line.Keeps Shared.Ends Section.Ends)
    (fun _ _ => True) ?_ (spawned_attended session).ends (fun _ _ => trivial)
  intro line act hline _
  exact (line.step_moves act).keeps_ends hline

/-- No call is answered twice.  And none that was submitted is left behind, at any point
of a run, exactly when the pump never gives up on a job that is waited for after the
reader has finished. -/
theorem calls_answered_once {session : Session} (hspawned : session.Spawned)
    (acts : List LineAct) :
    (∀ id, ((run step (spawned session) acts).shared.received id).length ≤ 1) ∧
      ((∀ front, front <+: acts → (run step (spawned session) front).AllAnswered) ↔
        ∀ visit ∈ visits step (spawned session) acts, visit.2.LeavesNobody visit.1) := by
  constructor
  · intro id
    apply Shared.received_length
    · exact (jobIds_linear session acts).once_held .opener
    · exact (answerIds_linear hspawned.waiters acts).once_held .opener
  constructor
  · intro hanswered visit hvisit
    obtain ⟨front, hfront, hline⟩ := mem_visits hvisit
    obtain ⟨line, act⟩ := visit
    cases act with
    | pump input =>
      intro hstopping hreading job hjob
      by_contra hwaiter
      dsimp only at hline
      subst hline
      refine drop_abandons (takenIds_linear session front) ?_ hreading hstopping hjob hwaiter input ?_
      · exact (run_ends session front).shared.gone hreading
      · have hlast := hanswered _ hfront
        rw [run_concat] at hlast
        exact hlast
    | _ => trivial
  · intro hacts front hfront
    apply Attended.allAnswered
    apply run_attended
    obtain ⟨back, rfl⟩ := hfront
    intro visit hvisit
    apply hacts
    rw [visits_append]
    exact List.mem_append_left _ hvisit

section Example

/-- The attach is past the gate when its worker exits, and a call that was checked before
the reader preserved the session is queued after the reader has finished. -/
def lateCall : List LineAct :=
  [LineAct.admits true] ++ List.replicate 3 (LineAct.run .opener {}) ++
    [LineAct.pump {}, .start 0 (.call (Call.named .debugger)), .run (.caller 0) {}, .exit, .read] ++
      List.replicate 4 (LineAct.run .reader {}) ++
        List.replicate 2 (LineAct.run (.caller 0) {}) ++ List.replicate 2 (LineAct.pump {})

/-- Up to there every call is looked after. -/
theorem calls_answered_once_lateCall :
    (run step (spawned remoteKernel) lateCall).AllAnswered := by
  have answered := (calls_answered_once remoteKernel_spawned lateCall).2.mpr (by decide)
  exact answered lateCall List.prefix_rfl

/-- Then the pump, whose write of the attach failed, gives up, and the call is left in the
waiters. -/
theorem lateCall_abandoned :
    ¬(run step (spawned remoteKernel) (lateCall ++ [.pump {}])).AllAnswered := by
  have hjob : (⟨2, Call.named .debugger⟩ : Job) ∈
      (run step (spawned remoteKernel) lateCall).shared.queue := by decide
  rw [run_concat]
  apply drop_abandons (takenIds_linear remoteKernel lateCall) _ _ _ hjob
  all_goals decide

end Example

end Line

end WindbgMcp.Engine
