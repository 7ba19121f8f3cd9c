import WindbgMcp.SkServiceTrace.Requests

/-! The service-trace loop over any runtime, with other threads at the shared trace between
any two of its operations.  Every stop is re-armed or restored; the trace is sealed unless
the record of the call that is pending at the end fails its own check. -/
namespace WindbgMcp.SkServiceTrace
open Library
open SkControl (StopEpoch RegisterValue)
open Structured (HostQpcSample)

variable {ρ : Type}

inductive Visit where
  | requestStop (traceId : String)
  | snapshot (traceId : String) (now : Option HostQpcSample)
deriving DecidableEq, Repr

/-- The controller the loop drives, with a state of its own.  Its state also decides what
the clocks say and what other threads do before and after each operation. -/
structure ServiceTraceRuntime (ρ : Type) where
  waitForTraceStop : Bool → Fallible ρ StopRecord
  /-- The registers of the stop once its capture is complete. -/
  completeTraceStop : StopRecord → Fallible ρ (List RegisterValue)
  readTraceMemory : ReadMemory ρ
  rearmTrace : StopEpoch → Fallible ρ Unit
  restoreTrace : StopEpoch → Fallible ρ Unit
  clock : ρ → Clock × ρ
  sample : ρ → Option HostQpcSample × ρ
  visits : ρ → List Visit × ρ

/-- What happens to stops and what readers are told, in order. -/
inductive Event where
  | stopped (epoch : StopEpoch)
  | waitFailed
  | rearmed (epoch : StopEpoch)
  | rearmFailed (epoch : StopEpoch)
  /-- The restore was called on a trace that said `armed`. -/
  | restored (epoch : StopEpoch) (armed succeeded : Bool)
  | finishing (recorder : Recorder)
  | read (armed : Bool)
deriving DecidableEq, Repr

structure World (ρ : Type) where
  runtime : ρ
  shared : SharedTrace
  log : List Event

def context (front error : String) : String := front ++ ": " ++ error

namespace World

def armed (world : World ρ) : Bool := !world.shared.recorder.isSealed

def visit (world : World ρ) : Visit → World ρ
  | .requestStop traceId => { world with shared := (world.shared.requestStop traceId).1 }
  | .snapshot traceId now =>
    match world.shared.snapshot now traceId with
    | .ok trace => { world with log := world.log ++ [.read trace.armed] }
    | .error _ => world

variable (runtime : ServiceTraceRuntime ρ)

def others (world : World ρ) : World ρ :=
  let (visits, state) := runtime.visits world.runtime
  visits.foldl visit { world with runtime := state }

def call {α : Type} (action : Fallible ρ α) (note : World ρ → Except String α → List Event)
    (world : World ρ) : Except String α × World ρ :=
  let world := others runtime world
  let (result, state) := Fallible.result action world.runtime
  (result, others runtime { world with
    runtime := state
    log := world.log ++ note world result })

def stopRequested (world : World ρ) : Bool × World ρ :=
  let world := others runtime world
  (world.shared.stopRequested, world)

def capacityReached (world : World ρ) : Bool × World ρ :=
  let world := others runtime world
  (world.shared.capacityReached, world)

def observe (decoded : DecodedObservation) (world : World ρ) :
    Except ObservationError Unit × World ρ :=
  let world := others runtime world
  let (now, state) := runtime.sample world.runtime
  let (shared, result) := world.shared.observe now decoded.observations
  (result, { world with runtime := state, shared := shared })

def finish (world : World ρ) : Except String ServiceTrace × World ρ :=
  let world := others runtime world
  let (now, state) := runtime.sample world.runtime
  let (shared, result) := world.shared.finish now
  (result, { world with
    runtime := state
    shared := shared
    log := world.log ++ [.finishing world.shared.recorder] })

def wait (asked : Bool) (world : World ρ) : Except String StopRecord × World ρ :=
  call runtime (runtime.waitForTraceStop asked) (fun _ result =>
    match result with
    | .ok stop => [.stopped stop.epoch]
    | .error _ => [.waitFailed]) world

def complete (stop : StopRecord) (world : World ρ) : Except String StopRecord × World ρ :=
  let (registers, world) := call runtime (runtime.completeTraceStop stop) (fun _ _ => []) world
  (registers.map fun registers => { stop with registers := registers }, world)

def decode (decoder : ObservationDecoder) (stop : StopRecord) (perBufferBytes : Nat)
    (world : World ρ) : Except String (DecodedObservation × ObservationDecoder) × World ρ :=
  let (clock, state) := runtime.clock world.runtime
  call runtime (ObservationDecoder.decode runtime.readTraceMemory decoder stop clock perBufferBytes)
    (fun _ _ => []) { world with runtime := state }

def rearm (epoch : StopEpoch) (world : World ρ) : Except String Unit × World ρ :=
  call runtime (runtime.rearmTrace epoch) (fun _ result =>
    match result with
    | .ok _ => [.rearmed epoch]
    | .error _ => [.rearmFailed epoch]) world

def restore (epoch : StopEpoch) (world : World ρ) : Except String Unit × World ρ :=
  call runtime (runtime.restoreTrace epoch) (fun world result =>
    [.restored epoch world.armed result.isOk]) world

end World

open World

section Source
variable (runtime : ServiceTraceRuntime ρ)

def finishServiceTrace (epoch : StopEpoch) (world : World ρ) :
    Except String ServiceTrace × World ρ :=
  let (finished, world) := finish runtime world
  let (restored, world) := restore runtime epoch world
  (match finished, restored with
    | .ok trace, .ok _ => .ok trace
    | .error finish, .ok _ => .error finish
    | .ok _, .error restore => .error restore
    | .error finish, .error restore =>
      .error (context ("the recorder also failed to seal: " ++ finish) restore), world)

def released (epoch : StopEpoch) (error front : String) (world : World ρ) :
    Except String ServiceTrace × World ρ :=
  match finishServiceTrace runtime epoch world with
  | (.ok _, world) => (.error error, world)
  | (.error restoration, world) => (.error (context front restoration), world)

inductive Observed where
  | taken (decoder : ObservationDecoder)
  | stopped
  | failed (error : String)

def observeStop (perBufferBytes : Nat) (decoder : ObservationDecoder) (stop : StopRecord)
    (world : World ρ) : Observed × World ρ :=
  match World.decode runtime decoder stop perBufferBytes world with
  | (.error error, world) => (.failed error, world)
  | (.ok (decoded, decoder), world) =>
    match observe runtime decoded world with
    | (.ok _, world) => (.taken decoder, world)
    | (.error .stopRequested, world) => (.stopped, world)
    | (.error .alreadySealed, world) => (.failed "service trace is already sealed", world)
    | (.error (.recorder error), world) => (.failed error, world)

inductive Turn (ρ : Type) where
  | again (decoder : ObservationDecoder) (world : World ρ)
  | returned (outcome : Except String ServiceTrace × World ρ)

def rearmTurn (decoder : ObservationDecoder) (stop : StopRecord) (world : World ρ) : Turn ρ :=
  let (asked, world) := stopRequested runtime world
  if asked then .returned (finishServiceTrace runtime stop.epoch world)
  else
    let (full, world) := capacityReached runtime world
    if full then .returned (finishServiceTrace runtime stop.epoch world)
    else
      match rearm runtime stop.epoch world with
      | (.ok _, world) => .again decoder world
      | (.error error, world) =>
        .returned (released runtime stop.epoch error
          ("service re-arm failed before restoration: " ++ error) world)

/-- What the loop does with a stop it holds. -/
def heldTurn (perBufferBytes : Nat) (decoder : ObservationDecoder) (stop : StopRecord)
    (world : World ρ) : Turn ρ :=
  let (asked, world) := stopRequested runtime world
  if asked then .returned (finishServiceTrace runtime stop.epoch world)
  else
    match complete runtime stop world with
    | (.error error, world) =>
      .returned (released runtime stop.epoch
        (context "service-trace register capture failed" error)
        ("service-trace register capture failed before restoration: " ++ error) world)
    | (.ok stop, world) =>
      match observeStop runtime perBufferBytes decoder stop world with
      | (.stopped, world) => .returned (finishServiceTrace runtime stop.epoch world)
      | (.failed error, world) =>
        .returned (released runtime stop.epoch error
          ("service observation failed before restoration: " ++ error) world)
      | (.taken decoder, world) => rearmTurn runtime decoder stop world

def turn (perBufferBytes : Nat) (decoder : ObservationDecoder) (world : World ρ) : Turn ρ :=
  let (asked, world) := stopRequested runtime world
  match wait runtime asked world with
  | (.error error, world) =>
    .returned (match finish runtime world with
      | (.ok _, world) => (.error error, world)
      | (.error finish, world) =>
        (.error (context ("the recorder also failed to seal: " ++ finish) error), world))
  | (.ok stop, world) => heldTurn runtime perBufferBytes decoder stop world

/-- The loop for at most `fuel` turns; it has returned if there is an outcome. -/
def driveServiceTrace (perBufferBytes : Nat) :
    Nat → ObservationDecoder → World ρ → Option (Except String ServiceTrace × World ρ)
  | 0, _, _ => none
  | fuel + 1, decoder, world =>
    match turn runtime perBufferBytes decoder world with
    | .again decoder world => driveServiceTrace perBufferBytes fuel decoder world
    | .returned outcome => some outcome

end Source

def Event.ofStop : Event → Bool
  | .read _ | .finishing _ => false
  | _ => true

def Event.isFinishing : Event → Bool
  | .finishing _ => true
  | _ => false

def Event.Says (armed : Bool) : Event → Prop
  | .read told | .restored _ told _ => told = armed
  | _ => True

instance (armed : Bool) : DecidablePred (Event.Says armed) := fun event =>
  match event with
  | .read told | .restored _ told _ => inferInstanceAs (Decidable (told = armed))
  | .stopped _ | .waitFailed | .rearmed _ | .rearmFailed _ | .finishing _ =>
    inferInstanceAs (Decidable True)

/-- `finish` seals this recorder: it is sealed already, no dispatched call is pending, or the
incomplete record of that call passes its own check. -/
def Recorder.Finishable (recorder : Recorder) : Prop :=
  recorder.isSealed = true ∨ ∀ pending, recorder.pending = some pending →
    pending.dispatch.isSome = true →
    (recorder.record pending none (some .stopped)).validate recorder.manifest recorder.limits =
      .ok ()

theorem Recorder.pushRecord_result (recorder : Recorder) (now : Option HostQpcSample)
    (record : ServiceCallRecord) :
    (record.validate recorder.manifest recorder.limits = .ok () ∧
        (recorder.pushRecord now record).2 = .ok ()) ∨
      ∃ text, record.validate recorder.manifest recorder.limits = .error text ∧
        recorder.pushRecord now record = (recorder, .error text) := by
  unfold pushRecord
  split
  · rename_i text hvalidate
    exact .inr ⟨text, hvalidate, rfl⟩
  · rename_i hvalidate
    refine .inl ⟨hvalidate, ?_⟩
    dsimp only
    split
    · rfl
    · rfl

theorem Recorder.finish_spec (recorder : Recorder) (now : Option HostQpcSample) :
    ((recorder.finish now).1.isSealed = true ↔ recorder.Finishable) ∧
      ((recorder.finish now).2 = .ok () → (recorder.finish now).1.isSealed = true) := by
  unfold Finishable finish
  split
  · rename_i hsealed
    exact ⟨by simp [hsealed], fun _ => hsealed⟩
  rename_i hopen
  split
  · rename_i pending hpending
    obtain ⟨hsome, hdispatch⟩ := Option.filter_eq_some_iff.mp hpending
    have hcondition : (recorder.isSealed = true ∨ ∀ pending, recorder.pending = some pending →
        pending.dispatch.isSome = true →
        (recorder.record pending none (some .stopped)).validate recorder.manifest
          recorder.limits = .ok ()) ↔
        (recorder.record pending none (some .stopped)).validate recorder.manifest
          recorder.limits = .ok () := by
      simp [hopen, hsome, hdispatch]
    rw [hcondition]
    unfold andThen sealPending
    rcases pushRecord_result recorder.taken now (recorder.taken.record pending none (some .stopped))
      with ⟨hvalid, hok⟩ | ⟨text, hinvalid, heq⟩
    · rw [hok]
      exact ⟨⟨fun _ => hvalid, fun _ => sealNow_isSealed _ now⟩, fun _ => sealNow_isSealed _ now⟩
    · rw [heq]
      refine ⟨⟨fun hsealed => absurd hsealed hopen, fun hvalid => ?_⟩, nofun⟩
      cases hinvalid.symm.trans hvalid
  · rename_i hnone
    refine ⟨⟨fun _ => .inr ?_, fun _ => sealNow_isSealed _ now⟩, fun _ => sealNow_isSealed _ now⟩
    intro pending hsome hdispatch
    cases hnone.symm.trans (Option.filter_eq_some_iff.mpr ⟨hsome, hdispatch⟩)

namespace World

variable {runtime : ServiceTraceRuntime ρ} {world before after last : World ρ}

def Waits (before after : World ρ) : Prop :=
  after.shared.recorder = before.shared.recorder ∧
    ∃ told, after.log = before.log ++ told ∧ ∀ event ∈ told, event = .read before.armed

theorem armed_eq (h : after.shared.recorder = before.shared.recorder) :
    after.armed = before.armed := by
  unfold armed
  rw [h]

theorem Waits.refl (world : World ρ) : Waits world world := ⟨rfl, [], by simp, by simp⟩

theorem Waits.trans (hfirst : Waits before after) (hsecond : Waits after last) :
    Waits before last := by
  obtain ⟨hrecorder, told, hlog, htold⟩ := hfirst
  obtain ⟨hsame, more, hmore, hall⟩ := hsecond
  refine ⟨hsame.trans hrecorder, told ++ more, by rw [hmore, hlog, List.append_assoc], ?_⟩
  intro event hevent
  rcases List.mem_append.mp hevent with hevent | hevent
  · exact htold event hevent
  · rw [← armed_eq hrecorder]
    exact hall event hevent

theorem visit_waits (world : World ρ) (visit : Visit) : Waits world (world.visit visit) := by
  cases visit with
  | requestStop traceId =>
    exact ⟨SharedTrace.requestStop_recorder _ _, [], by simp [World.visit], by simp⟩
  | snapshot traceId now =>
    rcases hsnapshot : world.shared.snapshot now traceId with text | trace
    · simp only [World.visit, hsnapshot]
      exact Waits.refl world
    · have harmed : trace.armed = world.armed := by
        rw [SharedTrace.snapshot_eq hsnapshot]
        rfl
      simp only [World.visit, hsnapshot, harmed]
      exact ⟨rfl, _, rfl, by simp⟩

theorem visits_waits (world : World ρ) (visits : List Visit) :
    Waits world (visits.foldl World.visit world) := by
  induction visits generalizing world with
  | nil => exact Waits.refl world
  | cons visit rest ih => exact (visit_waits world visit).trans (ih _)

theorem others_waits (world : World ρ) : Waits world (others runtime world) :=
  visits_waits _ _

theorem call_spec {α : Type} (action : Fallible ρ α)
    (note : World ρ → Except String α → List Event) (world : World ρ) :
    ∃ called noted, Waits world called ∧ noted.shared = called.shared ∧
      noted.log = called.log ++ note called (call runtime action note world).1 ∧
      Waits noted (call runtime action note world).2 :=
  let called := others runtime world
  let outcome := Fallible.result action called.runtime
  let noted : World ρ := { called with
    runtime := outcome.2
    log := called.log ++ note called outcome.1 }
  ⟨called, noted, others_waits world, rfl, rfl, others_waits noted⟩

def Open (world : World ρ) (events : List Event) : Prop :=
  world.log.filter Event.ofStop = events ∧ ∀ event ∈ world.log, event.isFinishing = false

/-- The trace was finished once, on this recorder, and nothing said since then of the trace
but what it is now. -/
def Finished (world : World ρ) (recorder : Recorder) (events : List Event) : Prop :=
  world.log.filter Event.ofStop = events ∧
    (world.shared.recorder.isSealed = true ↔ recorder.Finishable) ∧
    ∃ earlier later, world.log = earlier ++ .finishing recorder :: later ∧
      (∀ event ∈ earlier, event.isFinishing = false) ∧
      ∀ event ∈ later, event.isFinishing = false ∧ event.Says world.armed

theorem Open.waits {events : List Event} (h : before.Open events) (hwaits : Waits before after) :
    after.Open events := by
  obtain ⟨-, told, hlog, htold⟩ := hwaits
  refine ⟨?_, fun event hevent => ?_⟩
  · rw [hlog, List.filter_append, h.1, List.filter_eq_nil_iff.mpr, List.append_nil]
    intro event hevent
    simp [htold event hevent, Event.ofStop]
  · rw [hlog] at hevent
    rcases List.mem_append.mp hevent with hold | hnew
    · exact h.2 event hold
    · rw [htold event hnew]
      rfl

theorem Finished.waits {recorder : Recorder} {events : List Event}
    (h : before.Finished recorder events) (hwaits : Waits before after) :
    after.Finished recorder events := by
  obtain ⟨hevents, hsealed, earlier, later, hbefore, hearlier, hlater⟩ := h
  obtain ⟨hrecorder, told, hlog, htold⟩ := hwaits
  refine ⟨?_, by rw [hrecorder]; exact hsealed, earlier, later ++ told, ?_, hearlier, ?_⟩
  · rw [hlog, List.filter_append, hevents, List.filter_eq_nil_iff.mpr, List.append_nil]
    intro event hevent
    simp [htold event hevent, Event.ofStop]
  · rw [hlog, hbefore, List.append_assoc, List.cons_append]
  · intro event hevent
    rw [armed_eq hrecorder]
    rcases List.mem_append.mp hevent with hold | hnew
    · exact hlater event hold
    · rw [htold event hnew]
      exact ⟨rfl, rfl⟩

theorem Open.call {events : List Event} {α : Type} {action : Fallible ρ α}
    {note : World ρ → Except String α → List Event} (h : world.Open events)
    (hnote : ∀ called result, ∀ event ∈ note called result,
      event.ofStop = true ∧ event.isFinishing = false) :
    ∃ called, (World.call runtime action note world).2.Open
      (events ++ note called (World.call runtime action note world).1) := by
  obtain ⟨called, noted, hbefore, -, hlog, hafter⟩ := @call_spec ρ runtime α action note world
  have hopen := h.waits hbefore
  refine ⟨called, Open.waits ⟨?_, ?_⟩ hafter⟩
  · rw [hlog, List.filter_append, hopen.1, List.filter_eq_self.mpr]
    exact fun event hevent => (hnote _ _ event hevent).1
  · intro event hevent
    rw [hlog] at hevent
    rcases List.mem_append.mp hevent with hold | hnew
    · exact hopen.2 event hold
    · exact (hnote _ _ event hnew).2

theorem Open.stopRequested {events : List Event} (h : world.Open events) :
    (World.stopRequested runtime world).2.Open events := h.waits (others_waits world)

theorem Open.capacityReached {events : List Event} (h : world.Open events) :
    (World.capacityReached runtime world).2.Open events := h.waits (others_waits world)

theorem Open.observe {events : List Event} {decoded : DecodedObservation} (h : world.Open events) :
    (World.observe runtime decoded world).2.Open events := by
  have hopen := h.waits (@others_waits ρ runtime world)
  exact ⟨hopen.1, hopen.2⟩

theorem Open.complete {events : List Event} {stop : StopRecord} (h : world.Open events) :
    (World.complete runtime stop world).2.Open events := by
  obtain ⟨called, hopen⟩ := @Open.call ρ runtime world events _
    (runtime.completeTraceStop stop) (fun _ _ => []) h
    (fun _ _ _ hevent => absurd hevent List.not_mem_nil)
  rw [List.append_nil] at hopen
  exact hopen

theorem Open.decode {events : List Event} {decoder : ObservationDecoder} {stop : StopRecord}
    {perBufferBytes : Nat} (h : world.Open events) :
    (World.decode runtime decoder stop perBufferBytes world).2.Open events := by
  obtain ⟨called, hopen⟩ := @Open.call ρ runtime
    { world with runtime := (runtime.clock world.runtime).2 } events _
    (ObservationDecoder.decode runtime.readTraceMemory decoder stop
      (runtime.clock world.runtime).1 perBufferBytes) (fun _ _ => []) h
    (fun _ _ _ hevent => absurd hevent List.not_mem_nil)
  rw [List.append_nil] at hopen
  exact hopen

theorem Open.wait {events : List Event} {asked : Bool} (h : world.Open events) :
    (World.wait runtime asked world).2.Open
      (events ++ match (World.wait runtime asked world).1 with
        | .ok stop => [.stopped stop.epoch]
        | .error _ => [.waitFailed]) := by
  obtain ⟨called, hopen⟩ := @Open.call ρ runtime world events _
    (runtime.waitForTraceStop asked) (fun _ result =>
      match result with
      | .ok stop => [.stopped stop.epoch]
      | .error _ => [.waitFailed]) h (by
    intro called result event hevent
    cases result <;> (rw [List.mem_singleton.mp hevent]; exact ⟨rfl, rfl⟩))
  exact hopen

theorem Open.rearm {events : List Event} {epoch : StopEpoch} (h : world.Open events) :
    (World.rearm runtime epoch world).2.Open
      (events ++ match (World.rearm runtime epoch world).1 with
        | .ok _ => [.rearmed epoch]
        | .error _ => [.rearmFailed epoch]) := by
  obtain ⟨called, hopen⟩ := @Open.call ρ runtime world events _
    (runtime.rearmTrace epoch) (fun _ result =>
      match result with
      | .ok _ => [.rearmed epoch]
      | .error _ => [.rearmFailed epoch]) h (by
    intro called result event hevent
    cases result <;> (rw [List.mem_singleton.mp hevent]; exact ⟨rfl, rfl⟩))
  exact hopen

theorem Open.finish {events : List Event} (h : world.Open events) :
    ∃ recorder, (World.finish runtime world).2.Finished recorder events ∧
      ∀ trace, (World.finish runtime world).1 = .ok trace →
        (World.finish runtime world).2.armed = false ∧ trace.armed = false := by
  have hopen := h.waits (@others_waits ρ runtime world)
  generalize hworld : others runtime world = waited at hopen
  obtain ⟨hsealed, hok⟩ := waited.shared.recorder.finish_spec (runtime.sample waited.runtime).1
  unfold World.finish
  rw [hworld]
  dsimp only
  refine ⟨waited.shared.recorder, ⟨?_, hsealed, waited.log, [], rfl, hopen.2, by simp⟩, ?_⟩
  · rw [List.filter_append, hopen.1]
    exact List.append_nil _
  · intro trace htrace
    unfold SharedTrace.finish at htrace
    dsimp only at htrace
    rcases hfinish : (waited.shared.recorder.finish (runtime.sample waited.runtime).1).2 with
      text | done
    · rw [hfinish] at htrace
      cases htrace
    · rw [hfinish] at htrace
      cases htrace
      have harmed := hok hfinish
      refine ⟨?_, ?_⟩
      · simp [World.armed, SharedTrace.finish, harmed]
      · simp [Recorder.completedPrefix, harmed]

theorem Finished.restore {recorder : Recorder} {events : List Event} {epoch : StopEpoch}
    (h : world.Finished recorder events) :
    (World.restore runtime epoch world).2.Finished recorder
        (events ++ [.restored epoch world.armed (World.restore runtime epoch world).1.isOk]) ∧
      (World.restore runtime epoch world).2.armed = world.armed := by
  obtain ⟨called, noted, hbefore, hshared, hlog, hafter⟩ := @call_spec ρ runtime Unit
    (runtime.restoreTrace epoch)
    (fun world result => [.restored epoch world.armed result.isOk]) world
  have hcalled := armed_eq hbefore.1
  have hnoted : noted.armed = called.armed := armed_eq (by rw [hshared])
  obtain ⟨hevents, hsealed, earlier, later, heq, hearlier, hlater⟩ := h.waits hbefore
  rw [hcalled] at hlog
  refine ⟨Finished.waits ⟨?_, ?_, earlier,
    later ++ [.restored epoch world.armed (World.restore runtime epoch world).1.isOk], ?_,
    hearlier, ?_⟩ hafter, ?_⟩
  · rw [hlog, List.filter_append, hevents]
    rfl
  · rw [hshared]
    exact hsealed
  · rw [hlog, heq, List.append_assoc, List.cons_append]
    rfl
  · intro event hevent
    rw [hnoted]
    rcases List.mem_append.mp hevent with hold | hnew
    · exact hlater event hold
    · rw [List.mem_singleton.mp hnew]
      exact ⟨rfl, hcalled.symm⟩
  · exact (armed_eq hafter.1).trans (hnoted.trans hcalled)

end World

/-- How the loop ends: a wait failed, or the stop it held was handed to the restore, after a
re-arm that failed or without one.  Success means that the restore succeeded. -/
inductive Ending : List Event → Except String ServiceTrace → Prop
  | waitFailed (error : String) : Ending [.waitFailed] (.error error)
  | restored (epoch : StopEpoch) (armed succeeded : Bool) (result : Except String ServiceTrace)
      (h : ∀ trace, result = .ok trace →
        succeeded = true ∧ armed = false ∧ trace.armed = false) :
    Ending [.stopped epoch, .restored epoch armed succeeded] result
  | rearmFailed (epoch : StopEpoch) (armed succeeded : Bool) (error : String) :
    Ending [.stopped epoch, .rearmFailed epoch, .restored epoch armed succeeded] (.error error)

def rearmings (epochs : List StopEpoch) : List Event :=
  epochs.flatMap fun epoch => [.stopped epoch, .rearmed epoch]

section Turns
variable {runtime : ServiceTraceRuntime ρ} {perBufferBytes : Nat} {decoder : ObservationDecoder}
  {world : World ρ} {events : List Event} {epoch : StopEpoch}

theorem finishServiceTrace_spec (h : world.Open events) :
    ∃ recorder armed succeeded,
      (finishServiceTrace runtime epoch world).2.Finished recorder
        (events ++ [.restored epoch armed succeeded]) ∧
      ∀ trace, (finishServiceTrace runtime epoch world).1 = .ok trace →
        succeeded = true ∧ armed = false ∧ trace.armed = false := by
  obtain ⟨recorder, hfinished, htrace⟩ := @World.Open.finish ρ runtime world events h
  obtain ⟨hrestored, -⟩ := @World.Finished.restore ρ runtime _ recorder events epoch hfinished
  refine ⟨recorder, _, _, hrestored, ?_⟩
  intro trace hresult
  unfold finishServiceTrace at hresult
  dsimp only at hresult
  generalize World.finish runtime world = finished at *
  generalize World.restore runtime epoch finished.2 = restored at *
  rcases finished with ⟨finished, middle⟩
  rcases restored with ⟨restored, last⟩
  cases finished with
  | error text => cases restored <;> cases hresult
  | ok found =>
    cases restored with
    | error text => cases hresult
    | ok done =>
      cases hresult
      obtain ⟨hmiddle, harmed⟩ := htrace trace rfl
      exact ⟨rfl, hmiddle, harmed⟩

theorem released_spec {error front : String} (h : world.Open events) :
    ∃ recorder armed succeeded text,
      (released runtime epoch error front world).2.Finished recorder
        (events ++ [.restored epoch armed succeeded]) ∧
      (released runtime epoch error front world).1 = .error text := by
  obtain ⟨recorder, armed, succeeded, hfinished, -⟩ :=
    @finishServiceTrace_spec ρ runtime world events epoch h
  unfold released
  rcases houtcome : finishServiceTrace runtime epoch world with ⟨result, last⟩
  rw [houtcome] at hfinished
  cases result with
  | ok trace => exact ⟨recorder, armed, succeeded, _, hfinished, rfl⟩
  | error text => exact ⟨recorder, armed, succeeded, _, hfinished, rfl⟩

def TurnOk (events : List Event) : Turn ρ → Prop
  | .again _ world => ∃ epoch, world.Open (events ++ rearmings [epoch])
  | .returned outcome => ∃ recorder ending,
    outcome.2.Finished recorder (events ++ ending) ∧ Ending ending outcome.1

theorem turnOk_finished (h : world.Open (events ++ [.stopped epoch])) :
    TurnOk events (.returned (finishServiceTrace runtime epoch world)) := by
  obtain ⟨recorder, armed, succeeded, hfinished, hresult⟩ :=
    @finishServiceTrace_spec ρ runtime world _ epoch h
  rw [List.append_assoc] at hfinished
  exact ⟨recorder, _, hfinished, .restored epoch armed succeeded _ hresult⟩

theorem turnOk_released {error front : String} (h : world.Open (events ++ [.stopped epoch])) :
    TurnOk events (.returned (released runtime epoch error front world)) := by
  obtain ⟨recorder, armed, succeeded, text, hfinished, hresult⟩ :=
    @released_spec ρ runtime world _ epoch error front h
  rw [List.append_assoc] at hfinished
  refine ⟨recorder, _, hfinished, .restored epoch armed succeeded _ ?_⟩
  intro trace htrace
  cases hresult.symm.trans htrace

theorem rearmTurn_ok {stop : StopRecord} (h : world.Open (events ++ [.stopped stop.epoch])) :
    TurnOk events (rearmTurn runtime decoder stop world) := by
  unfold rearmTurn
  have hasked := @World.Open.stopRequested ρ runtime world _ h
  generalize World.stopRequested runtime world = asked at hasked
  dsimp only
  split
  · exact turnOk_finished hasked
  have hfull := @World.Open.capacityReached ρ runtime asked.2 _ hasked
  generalize World.capacityReached runtime asked.2 = full at hfull
  split
  · exact turnOk_finished hfull
  have hrearm := @World.Open.rearm ρ runtime full.2 _ stop.epoch hfull
  rw [List.append_assoc] at hrearm
  generalize World.rearm runtime stop.epoch full.2 = rearmed at hrearm
  rcases rearmed with ⟨result, last⟩
  cases result with
  | ok done => exact ⟨stop.epoch, hrearm⟩
  | error error =>
    obtain ⟨recorder, armed, succeeded, text, hfinished, hresult⟩ :=
      @released_spec ρ runtime last _ stop.epoch error
        ("service re-arm failed before restoration: " ++ error) hrearm
    rw [List.append_assoc] at hfinished
    refine ⟨recorder, [.stopped stop.epoch, .rearmFailed stop.epoch,
      .restored stop.epoch armed succeeded], hfinished, ?_⟩
    rw [hresult]
    exact .rearmFailed stop.epoch armed succeeded text

theorem observeStop_open {stop : StopRecord} (h : world.Open events) :
    (observeStop runtime perBufferBytes decoder stop world).2.Open events := by
  unfold observeStop
  have hdecode := @World.Open.decode ρ runtime world events decoder stop perBufferBytes h
  generalize World.decode runtime decoder stop perBufferBytes world = decoded at hdecode
  rcases decoded with ⟨result, middle⟩
  cases result with
  | error error => exact hdecode
  | ok decoded =>
    have hobserve := @World.Open.observe ρ runtime middle events decoded.1 hdecode
    dsimp only
    generalize World.observe runtime decoded.1 middle = observed at hobserve
    rcases observed with ⟨result, last⟩
    cases result with
    | ok done => exact hobserve
    | error error => cases error <;> exact hobserve

theorem heldTurn_ok {stop : StopRecord} (h : world.Open (events ++ [.stopped stop.epoch])) :
    TurnOk events (heldTurn runtime perBufferBytes decoder stop world) := by
  unfold heldTurn
  have hasked := @World.Open.stopRequested ρ runtime world _ h
  generalize World.stopRequested runtime world = asked at hasked
  dsimp only
  split
  · exact turnOk_finished hasked
  have hcomplete := @World.Open.complete ρ runtime asked.2 _ stop hasked
  have hepoch : ∀ completed, (World.complete runtime stop asked.2).1 = .ok completed →
      completed.epoch = stop.epoch := by
    intro completed hcompleted
    unfold World.complete at hcompleted
    dsimp only at hcompleted
    rcases hregisters : (World.call runtime (runtime.completeTraceStop stop) (fun _ _ => [])
      asked.2).1 with error | registers
    · rw [hregisters] at hcompleted
      cases hcompleted
    · rw [hregisters] at hcompleted
      cases hcompleted
      rfl
  generalize World.complete runtime stop asked.2 = completed at hcomplete hepoch
  rcases completed with ⟨result, middle⟩
  cases result with
  | error error => exact turnOk_released hcomplete
  | ok completed =>
    rw [← hepoch completed rfl] at hcomplete
    have hobserved := @observeStop_open ρ runtime perBufferBytes decoder middle _ completed hcomplete
    dsimp only
    generalize observeStop runtime perBufferBytes decoder completed middle = observed
      at hobserved
    rcases observed with ⟨observed, last⟩
    cases observed with
    | stopped => exact turnOk_finished hobserved
    | failed error => exact turnOk_released hobserved
    | taken decoder => exact rearmTurn_ok hobserved

theorem turn_ok (h : world.Open events) :
    TurnOk events (turn runtime perBufferBytes decoder world) := by
  unfold turn
  have hasked := @World.Open.stopRequested ρ runtime world _ h
  generalize World.stopRequested runtime world = asked at hasked
  dsimp only
  have hwait := @World.Open.wait ρ runtime asked.2 events asked.1 hasked
  generalize World.wait runtime asked.1 asked.2 = waited at hwait
  rcases waited with ⟨result, held⟩
  cases result with
  | ok stop => exact heldTurn_ok hwait
  | error error =>
    obtain ⟨recorder, hfinished, -⟩ := @World.Open.finish ρ runtime held _ hwait
    dsimp only
    generalize World.finish runtime held = finished at hfinished
    rcases finished with ⟨finished, last⟩
    cases finished with
    | ok trace => exact ⟨recorder, _, hfinished, .waitFailed error⟩
    | error text => exact ⟨recorder, _, hfinished, .waitFailed _⟩

theorem drive_ok {fuel : Nat} {epochs : List StopEpoch} {result : Except String ServiceTrace}
    {last : World ρ} (hopen : world.Open (rearmings epochs))
    (h : driveServiceTrace runtime perBufferBytes fuel decoder world = some (result, last)) :
    ∃ recorder rearmed ending, last.Finished recorder (rearmings rearmed ++ ending) ∧
      Ending ending result := by
  induction fuel generalizing decoder world epochs with
  | zero => cases h
  | succ fuel ih =>
    have hturn := @turn_ok ρ runtime perBufferBytes decoder world _ hopen
    unfold driveServiceTrace at h
    cases hnext : turn runtime perBufferBytes decoder world with
    | again decoder next =>
      rw [hnext] at h hturn
      obtain ⟨epoch, hagain⟩ := hturn
      rw [rearmings, rearmings, ← List.flatMap_append] at hagain
      exact ih hagain h
    | returned outcome =>
      rw [hnext] at h hturn
      cases h
      obtain ⟨recorder, ending, hfinished, hending⟩ := hturn
      exact ⟨recorder, epochs, ending, hfinished, hending⟩

end Turns

/-- Each stop was re-armed once, or handed to the restore once and to it alone with success. -/
def StopsReleased (result : Except String ServiceTrace) (last : World ρ) : Prop :=
  ∃ rearmed ending, last.log.filter Event.ofStop = rearmings rearmed ++ ending ∧
    Ending ending result

def World.Disarmed (world : World ρ) : Prop :=
  ∀ (visits : List Visit) (now : Option HostQpcSample) (traceId : String) (trace : ServiceTrace),
    (visits.foldl World.visit world).shared.snapshot now traceId = .ok trace →
      trace.armed = false

/-- No stop is stranded and the trace is sealed: at the return, from `finish` on, before the
restore is called, and for every reader after the return. -/
structure StrandsNothing (result : Except String ServiceTrace) (last : World ρ) : Prop where
  released : StopsReleased result last
  isSealed : last.shared.recorder.isSealed = true
  quiet : ∀ event ∈ last.log.dropWhile fun event => !event.isFinishing, event.Says false
  later : last.Disarmed

theorem World.Finished.seals {last : World ρ} {recorder : Recorder} {events : List Event}
    (h : last.Finished recorder events) (hsealed : last.shared.recorder.isSealed = true) :
    (∀ event ∈ last.log.dropWhile fun event => !event.isFinishing, event.Says false) ∧
      last.Disarmed := by
  obtain ⟨-, -, earlier, later, hlog, hearlier, hlater⟩ := h
  have harmed : last.armed = false := by simp [World.armed, hsealed]
  constructor
  · intro event hevent
    rw [hlog, List.dropWhile_append_of_pos fun event hmem => by simp [hearlier event hmem]]
      at hevent
    rcases List.mem_cons.mp hevent with heq | hmem
    · rw [heq]
      trivial
    · rw [← harmed]
      exact (hlater event hmem).2
  · intro visits now traceId trace hsnapshot
    rw [SharedTrace.snapshot_eq hsnapshot]
    simp [Recorder.completedPrefix, (World.visits_waits last visits).1, hsealed]

/-- Whatever the runtime does and whoever visits the trace meanwhile, once the loop has
returned every stop was released; and the trace was sealed, at the return and before the
restore, if and only if `finish` was called on a recorder it can seal. -/
theorem drive_service_trace_strands_nothing_iff (runtime : ServiceTraceRuntime ρ)
    (perBufferBytes fuel : Nat) (decoder : ObservationDecoder) (state : ρ) (shared : SharedTrace)
    {result : Except String ServiceTrace} {last : World ρ}
    (h : driveServiceTrace runtime perBufferBytes fuel decoder ⟨state, shared, []⟩ =
      some (result, last)) :
    StopsReleased result last ∧
      (StrandsNothing result last ↔
        ∀ recorder, Event.finishing recorder ∈ last.log → recorder.Finishable) := by
  have hopen : (World.mk state shared []).Open (rearmings []) := ⟨rfl, by simp⟩
  obtain ⟨recorder, rearmed, ending, hfinished, hending⟩ := drive_ok hopen h
  have hreleased : StopsReleased result last := ⟨rearmed, ending, hfinished.1, hending⟩
  have hsealed := hfinished.2.1
  refine ⟨hreleased, fun hstrands other hother => ?_, fun hfinishable => ?_⟩
  · have hsame : other = recorder := by
      obtain ⟨-, -, earlier, later, hlog, hearlier, hlater⟩ := hfinished
      rw [hlog] at hother
      rcases List.mem_append.mp hother with hmem | hmem
      · cases hearlier _ hmem
      · rcases List.mem_cons.mp hmem with heq | hmem
        · exact Event.finishing.inj heq
        · cases (hlater _ hmem).1
    rw [hsame]
    exact hsealed.mp hstrands.isSealed
  · have hmem : Event.finishing recorder ∈ last.log := by
      obtain ⟨-, -, earlier, later, hlog, -⟩ := hfinished
      rw [hlog]
      simp
    have hlast := hsealed.mpr (hfinishable recorder hmem)
    obtain ⟨hquiet, hlater⟩ := hfinished.seals hlast
    exact ⟨hreleased, hlast, hquiet, hlater⟩

instance (recorder : Recorder) : Decidable recorder.Finishable :=
  decidable_of_iff (recorder.isSealed = true ∨
    (recorder.pending.all fun pending => !pending.dispatch.isSome ||
      decide ((recorder.record pending none (some .stopped)).validate recorder.manifest
        recorder.limits = .ok ())) = true) (by
    unfold Recorder.Finishable
    cases recorder.pending with
    | none => simp
    | some pending => cases hdispatch : pending.dispatch <;> simp [hdispatch])

namespace Sample

/-- The three stops of one call; memory cannot be read at the entry, for the given reason,
and the trace is asked to stop once the dispatch is re-armed.  The state counts the stops
and the re-arms. -/
def runtime (unreadable : String) : ServiceTraceRuntime Nat where
  waitForTraceStop := fun _ => do
    let count ← get
    match Sample.call[count / 2]? with
    | some input =>
      set (count + 1)
      return input.stop
    | none => throw "no more stops"
  completeTraceStop := fun stop => return stop.registers
  readTraceMemory := fun _ count => do
    if (← get) = 1 then throw unreadable
    if count = 2 then return [47, 0] else throw "unmapped"
  rearmTrace := fun _ => modify (· + 1)
  restoreTrace := fun _ => return
  clock := fun count => ({ hostQpc := none, hostMonotonicUs := count, hostElapsedUs := count }, count)
  sample := fun count => (none, count)
  visits := fun count => (if count = 4 then [.requestStop recorder.traceId] else [], count)

def drive (unreadable : String) : Option (Except String ServiceTrace × World Nat) :=
  driveServiceTrace (runtime unreadable) 64 4 decoder ⟨0, SharedTrace.new recorder, []⟩

end Sample

/-- A stop asked for in the middle of a call whose entry could not be read. -/
theorem drive_service_trace_strands_nothing_sample :
    ∃ result last, Sample.drive "unmapped" = some (result, last) ∧
      StrandsNothing result last := by
  have hrun : (Sample.drive "unmapped").any (fun outcome => outcome.2.log.all fun event =>
      match event with
      | .finishing recorder => decide recorder.Finishable
      | _ => true) = true := by
    decide +kernel
  rcases hdrive : Sample.drive "unmapped" with _ | ⟨result, last⟩
  · rw [hdrive] at hrun
    cases hrun
  refine ⟨result, last, rfl, ?_⟩
  refine ((drive_service_trace_strands_nothing_iff (Sample.runtime "unmapped") 64 4 Sample.decoder
    0 (SharedTrace.new Sample.recorder) hdrive).2).mpr ?_
  intro recorder hrecorder
  rw [hdrive] at hrun
  exact of_decide_eq_true (List.all_eq_true.mp hrun _ hrecorder)

/-- A reason without a text makes the record of the pending call invalid: `finish` fails and
the restore is called on a trace that still says it is armed. -/
theorem unnamed_failure_leaves_trace_armed :
    ¬ ∀ result last, Sample.drive "" = some (result, last) → StrandsNothing result last := by
  intro hstrands
  have hrun : (Sample.drive "").any (fun outcome =>
      decide (Event.restored ⟨"epoch-000000000002"⟩ true true ∈ outcome.2.log) &&
        !outcome.2.shared.recorder.isSealed) = true := by
    decide +kernel
  rcases hdrive : Sample.drive "" with _ | ⟨result, last⟩
  · rw [hdrive] at hrun
    cases hrun
  have hsealed := (hstrands result last hdrive).isSealed
  rw [hdrive] at hrun
  simp [hsealed] at hrun

end WindbgMcp.SkServiceTrace
