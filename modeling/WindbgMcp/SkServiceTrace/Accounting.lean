import WindbgMcp.SkServiceTrace.Pairing

/-! Where a selected call goes: to a retained record, to the count of dropped ones, or to the
pending slot.  An operation that takes the pending call out loses it where its record does not
pass, where the slot is given to another service, and where its own record fills the trace. -/
namespace WindbgMcp.SkServiceTrace
open Library
open SkControl (StopEpoch)
open Structured (HostQpcSample)
namespace Recorder

inductive Operation
  | observe (observation : Observation)
  | finish
  deriving DecidableEq, Repr

def apply (recorder : Recorder) (now : Option HostQpcSample) :
    Operation → Recorder × Except String Unit
  | .observe observation => recorder.observe now observation
  | .finish => recorder.finish now

def held (recorder : Recorder) : Option PendingCall :=
  recorder.pending.filter fun pending => pending.dispatch.isSome

def accounted (recorder : Recorder) : Nat :=
  recorder.records.length + recorder.droppedRecords + recorder.held.toList.length

def selects (recorder : Recorder) (result : Except String Unit) : Operation → Nat
  | .observe (.dispatch _ service _) =>
    if service = recorder.manifest.selected ∧ result = .ok () then 1 else 0
  | _ => 0

def Accepts (recorder : Recorder) : Operation → Prop
  | .observe (.entry cr3 entry) => (recorder.validateObservation cr3 entry.site "entry").2 = .ok ()
  | .observe (.dispatch cr3 service dispatch) =>
    recorder.checkServiceField service dispatch = .ok () ∧
      (recorder.validateObservation cr3 dispatch.site "dispatch").2 = .ok ()
  | .observe (.returned cr3 returned) =>
    (recorder.validateObservation cr3 returned.site "return").2 = .ok ()
  | .finish => True

def Passes (recorder : Recorder) (record : ServiceCallRecord) : Prop :=
  record.validate recorder.manifest recorder.limits = .ok ()

def LeavesRoom (recorder : Recorder) (record : ServiceCallRecord) : Prop :=
  let total := recorder.retainedCaptureBytes + record.capturedBytes
  recorder.records.length + 1 < recorder.limits.records ∧ total < 2 ^ 64 ∧
    total ≤ recorder.limits.totalCaptureBytes ∧
    (0 < recorder.limits.totalCaptureBytes → total ≠ recorder.limits.totalCaptureBytes)

/-- What retires the held call: its record passes; a dispatch is of the selected service too,
and leaves room for its own call. -/
def Retires (recorder : Recorder) (pending : PendingCall) : Operation → Prop
  | .observe (.entry _ _) => recorder.Passes (recorder.record pending none (some .nestedEntry))
  | .observe (.dispatch _ service _) => service = recorder.manifest.selected ∧
    recorder.Passes (recorder.record pending none (some .repeatedDispatch)) ∧
    recorder.LeavesRoom (recorder.record pending none (some .repeatedDispatch))
  | .observe (.returned cr3 returned) => pending.cr3 = cr3 →
    recorder.Passes (recorder.record pending (some returned)
      (if pending.entry.isSome then none else some .missingEntry))
  | .finish => recorder.Passes (recorder.record pending none (some .stopped))

def Keeps (recorder : Recorder) (operation : Operation) : Prop :=
  ∀ pending ∈ recorder.held, recorder.Accepts operation → recorder.Retires pending operation

variable {recorder : Recorder} {now : Option HostQpcSample}

theorem accounted_of_held {pending : PendingCall} (h : recorder.held = some pending) :
    recorder.accounted = recorder.taken.accounted + 1 := by
  unfold accounted
  rw [h]
  rfl

theorem accounted_of_none (h : recorder.held = none) :
    recorder.accounted = recorder.taken.accounted := by
  unfold accounted
  rw [h]
  rfl

@[simp] theorem sealNow_accounted (recorder : Recorder) (now : Option HostQpcSample) :
    (recorder.sealNow now).accounted = recorder.accounted := by
  unfold sealNow
  split <;> rfl

theorem pushRecord_of_not_passes {record : ServiceCallRecord} (h : ¬ recorder.Passes record) :
    ∃ text, recorder.pushRecord now record = (recorder, .error text) := by
  unfold Passes at h
  unfold pushRecord
  split
  · exact ⟨_, rfl⟩
  · contradiction

theorem pushRecord_of_passes {record : ServiceCallRecord} (h : recorder.Passes record)
    (hopen : recorder.isSealed = false) :
    (recorder.pushRecord now record).2 = .ok () ∧
      (recorder.pushRecord now record).1.accounted = recorder.accounted + 1 ∧
      ((recorder.pushRecord now record).1.isSealed = false ↔ recorder.LeavesRoom record) := by
  unfold Passes at h
  unfold pushRecord LeavesRoom
  rw [h]
  dsimp only
  split
  · next hdropped =>
    refine ⟨rfl, ?_, ?_⟩
    · rw [sealNow_accounted]
      unfold accounted held
      dsimp only
      omega
    · rw [sealNow_isSealed]
      simp only [Bool.true_eq_false, false_iff]
      omega
  · next hretained =>
    have hpushed : accounted { recorder with
        unreadableFields := recorder.unreadableFields + record.unreadableFields
        retainedCaptureBytes := recorder.retainedCaptureBytes + record.capturedBytes
        records := recorder.records ++ [record] } = recorder.accounted + 1 := by
      unfold accounted held
      dsimp only
      rw [List.length_append, List.length_singleton]
      omega
    refine ⟨rfl, ?_, ?_⟩
    · split
      · rw [sealNow_accounted, hpushed]
      · exact hpushed
    · split
      · next hspent =>
        rw [sealNow_isSealed]
        simp only [spent, List.length_append, List.length_singleton, decide_eq_true_eq] at hspent
        simp only [Bool.true_eq_false, false_iff]
        omega
      · next hspent =>
        simp only [spent, List.length_append, List.length_singleton, decide_eq_true_eq] at hspent
        simp only [hopen, true_iff]
        omega

theorem accounted_pending (pending : PendingCall) :
    accounted { recorder with pending := some pending } =
      recorder.taken.accounted + pending.calls.length := by
  have hheld : (held { recorder with pending := some pending }).toList.length =
      pending.calls.length := by
    unfold held PendingCall.calls
    rw [Option.filter_some]
    cases pending.dispatch.isSome with
    | false => rfl
    | true => rfl
  unfold accounted
  rw [hheld]
  rfl

theorem await_accounted (next : PendingCall) (h : recorder.pending = none) :
    (await next recorder).1.accounted =
      recorder.accounted + if recorder.isSealed then 0 else next.calls.length := by
  have htaken : recorder.taken = recorder := by
    unfold taken
    rw [← h]
  unfold await
  split
  · simp
  · dsimp only
    rw [accounted_pending, htaken]

/-- The held call is retired and the slot is given to the next one, unless the trace is full. -/
theorem sealPending_await_accounted {pending : PendingCall} (next : PendingCall)
    (reason : IncompleteReason) (hheld : recorder.held = some pending)
    (hopen : recorder.isSealed = false)
    (hpasses : recorder.Passes (recorder.record pending none (some reason))) :
    let outcome := andThen (recorder.taken.sealPending now pending none reason) (await next)
    outcome.2 = .ok () ∧
      (recorder.LeavesRoom (recorder.record pending none (some reason)) →
        outcome.1.accounted = recorder.accounted + next.calls.length) ∧
      (¬ recorder.LeavesRoom (recorder.record pending none (some reason)) →
        outcome.1.accounted = recorder.accounted) := by
  intro outcome
  obtain ⟨hok, hcount, hroom⟩ := @pushRecord_of_passes recorder.taken now
    (recorder.record pending none (some reason)) hpasses hopen
  have hnone := pushRecord_pending recorder.taken now (recorder.record pending none (some reason))
  have houtcome : outcome = await next (recorder.taken.pushRecord now
      (recorder.record pending none (some reason))).1 := by
    unfold outcome andThen
    rw [show recorder.taken.sealPending now pending none reason = recorder.taken.pushRecord now
      (recorder.record pending none (some reason)) from rfl, hok]
  have hroom' : (recorder.taken.pushRecord now
      (recorder.record pending none (some reason))).1.isSealed = false ↔
        recorder.LeavesRoom (recorder.record pending none (some reason)) := hroom
  rw [houtcome, await_accounted next hnone, hcount, ← accounted_of_held hheld, ← hroom']
  refine ⟨rfl, ?_, ?_⟩
  · intro hunsealed
    simp [hunsealed]
  · intro hsealed
    simp [Bool.eq_true_of_not_eq_false hsealed]

theorem sealPending_of_not_passes {pending : PendingCall} {reason : IncompleteReason}
    (next : Recorder → Recorder × Except String Unit)
    (h : ¬ recorder.Passes (recorder.record pending none (some reason))) :
    ∃ text, andThen (recorder.taken.sealPending now pending none reason) next =
      (recorder.taken, .error text) := by
  obtain ⟨text, hpushed⟩ := @pushRecord_of_not_passes recorder.taken now
    (recorder.record pending none (some reason)) h
  refine ⟨text, ?_⟩
  unfold andThen
  rw [show recorder.taken.sealPending now pending none reason = _ from hpushed]

theorem andThen_validate_of_ok {cr3 : Nat} {site : PhaseSite} {phase : String}
    (h : (recorder.validateObservation cr3 site phase).2 = .ok ())
    (next : Recorder → Recorder × Except String Unit) :
    andThen (recorder.validateObservation cr3 site phase) next =
      next (recorder.noted site.epoch) := by
  rcases validateObservation_cases recorder cr3 site phase with ⟨text, heq⟩ | heq
  · rw [heq] at h
    cases h
  · rw [heq]
    rfl

theorem andThen_validate_of_error {cr3 : Nat} {site : PhaseSite} {phase : String}
    (h : (recorder.validateObservation cr3 site phase).2 ≠ .ok ())
    (next : Recorder → Recorder × Except String Unit) :
    ∃ text, andThen (recorder.validateObservation cr3 site phase) next =
      (recorder, .error text) := by
  rcases validateObservation_cases recorder cr3 site phase with ⟨text, heq⟩ | heq
  · rw [heq]
    exact ⟨text, rfl⟩
  · rw [heq] at h
    contradiction

@[simp] theorem noted_accounted (epoch : StopEpoch) :
    (recorder.noted epoch).accounted = recorder.accounted := rfl

@[simp] theorem noted_held (epoch : StopEpoch) : (recorder.noted epoch).held = recorder.held := rfl

@[simp] theorem noted_isSealed (epoch : StopEpoch) :
    (recorder.noted epoch).isSealed = recorder.isSealed := rfl

@[simp] theorem noted_passes (epoch : StopEpoch) (pending : PendingCall)
    (returned : Option ReturnPhase) (reason : Option IncompleteReason) :
    (recorder.noted epoch).Passes ((recorder.noted epoch).record pending returned reason) ↔
      recorder.Passes (recorder.record pending returned reason) := Iff.rfl

@[simp] theorem noted_leavesRoom (epoch : StopEpoch) (pending : PendingCall)
    (returned : Option ReturnPhase) (reason : Option IncompleteReason) :
    (recorder.noted epoch).LeavesRoom ((recorder.noted epoch).record pending returned reason) ↔
      recorder.LeavesRoom (recorder.record pending returned reason) := Iff.rfl

theorem observeEntry_accounted (hopen : recorder.isSealed = false) (cr3 : Nat)
    (entry : EntryObservation) :
    (recorder.observeEntry now cr3 entry).1.accounted = recorder.accounted ↔
      recorder.Keeps (.observe (.entry cr3 entry)) := by
  unfold observeEntry Keeps
  dsimp only [Accepts, Retires]
  by_cases hvalid : (recorder.validateObservation cr3 entry.site "entry").2 = .ok ()
  · rw [andThen_validate_of_ok hvalid, ← @noted_accounted recorder entry.site.epoch,
      ← @noted_held recorder entry.site.epoch]
    simp only [hvalid, forall_const, ← @noted_passes recorder entry.site.epoch]
    rw [← @noted_isSealed recorder entry.site.epoch] at hopen
    generalize recorder.noted entry.site.epoch = seen at hopen
    simp only [hopen, Bool.false_eq_true, if_false]
    split
    · next pending hheld =>
      replace hheld : seen.held = some pending := hheld
      simp only [hheld, Option.mem_some, forall_eq']
      by_cases hpasses : seen.Passes (seen.record pending none (some .nestedEntry))
      · obtain ⟨-, hroom, hfull⟩ := @sealPending_await_accounted seen now pending
          { entry := some entry, dispatch := none, cr3 := cr3 } .nestedEntry hheld hopen hpasses
        have hnone : PendingCall.calls { entry := some entry, dispatch := none, cr3 := cr3 } = [] :=
          rfl
        rw [hnone, List.length_nil, Nat.add_zero] at hroom
        simp only [hpasses, iff_true]
        by_cases h : seen.LeavesRoom (seen.record pending none (some .nestedEntry))
        · exact hroom h
        · exact hfull h
      · obtain ⟨text, hgone⟩ := @sealPending_of_not_passes seen now pending .nestedEntry
          (await { entry := some entry, dispatch := none, cr3 := cr3 }) hpasses
        rw [hgone, accounted_of_held hheld]
        simp [hpasses]
    · next hheld =>
      replace hheld : seen.held = none := hheld
      rw [await_accounted _ rfl, accounted_of_none hheld]
      simp [hheld, PendingCall.calls]
  · obtain ⟨text, heq⟩ := andThen_validate_of_error hvalid _
    rw [heq]
    simp [hvalid]

theorem selected_accounted {seen : Recorder} (hopen : seen.isSealed = false) (cr3 : Nat)
    (dispatch : DispatchPhase) :
    let alone : PendingCall := { entry := none, dispatch := some dispatch, cr3 := cr3 }
    ∀ pending ∈ seen.held,
      let outcome := andThen (seen.taken.sealPending now pending none .repeatedDispatch)
        (await alone)
      outcome.1.accounted = seen.accounted + (if outcome.2 = .ok () then 1 else 0) ↔
        seen.Passes (seen.record pending none (some .repeatedDispatch)) ∧
          seen.LeavesRoom (seen.record pending none (some .repeatedDispatch)) := by
  intro alone pending hheld outcome
  have halone : alone.calls.length = 1 := rfl
  by_cases hpasses : seen.Passes (seen.record pending none (some .repeatedDispatch))
  · obtain ⟨hok, hroom, hfull⟩ := @sealPending_await_accounted seen now pending alone
      .repeatedDispatch hheld hopen hpasses
    rw [halone] at hroom
    replace hok : outcome.2 = .ok () := hok
    simp only [hok, hpasses, true_and, if_true]
    by_cases h : seen.LeavesRoom (seen.record pending none (some .repeatedDispatch))
    · simp only [h, iff_true]
      exact hroom h
    · simp only [h, iff_false]
      have : outcome.1.accounted = seen.accounted := hfull h
      omega
  · obtain ⟨text, hgone⟩ := @sealPending_of_not_passes seen now pending .repeatedDispatch
      (await alone) hpasses
    replace hgone : outcome = (seen.taken, .error text) := hgone
    rw [hgone, accounted_of_held hheld]
    simp [hpasses]

theorem observeDispatch_accounted (hopen : recorder.isSealed = false) (cr3 service : Nat)
    (dispatch : DispatchPhase) :
    let outcome := recorder.observeDispatch now cr3 service dispatch
    outcome.1.accounted = recorder.accounted +
        recorder.selects outcome.2 (.observe (.dispatch cr3 service dispatch)) ↔
      recorder.Keeps (.observe (.dispatch cr3 service dispatch)) := by
  intro outcome
  unfold outcome observeDispatch Keeps
  dsimp only [Accepts, Retires, selects]
  cases hfield : recorder.checkServiceField service dispatch with
  | error text => simp
  | ok =>
  dsimp only
  by_cases hvalid : (recorder.validateObservation cr3 dispatch.site "dispatch").2 = .ok ()
  · rw [andThen_validate_of_ok hvalid, ← @noted_accounted recorder dispatch.site.epoch,
      ← @noted_held recorder dispatch.site.epoch, ← @noted_manifest recorder dispatch.site.epoch]
    simp only [hvalid, and_self, forall_const, ← @noted_passes recorder dispatch.site.epoch,
      ← @noted_leavesRoom recorder dispatch.site.epoch]
    rw [← @noted_isSealed recorder dispatch.site.epoch] at hopen
    generalize recorder.noted dispatch.site.epoch = seen at hopen
    rw [if_neg (Bool.eq_false_iff.mp hopen)]
    by_cases hservice : service = seen.manifest.selected
    · simp only [hservice, ne_eq, not_true_eq_false, if_false, true_and]
      cases hpending : seen.pending with
      | none =>
        have hheld : seen.held = none := by simp [held, hpending]
        rw [hheld, accounted_pending, accounted_of_none hheld]
        simp [PendingCall.calls]
      | some pending =>
        dsimp only
        split
        · next hfree =>
          have hheld : seen.held = none := by
            unfold held
            rw [hpending, Option.filter_some, if_neg]
            simpa using hfree
          rw [hheld, accounted_of_none hheld]
          split
          · rw [accounted_pending]
            simp [PendingCall.calls]
          · rw [accounted_pending]
            simp [PendingCall.calls]
        · next htaken =>
          have hheld : seen.held = some pending := by
            unfold held
            rw [hpending, Option.filter_some, if_pos]
            simpa [Option.isSome_iff_ne_none] using htaken
          simp only [hheld, Option.mem_some, forall_eq']
          exact selected_accounted hopen cr3 dispatch pending hheld
    · simp only [hservice, ne_eq, not_false_eq_true, if_true, false_and, if_false, Nat.add_zero,
        imp_false]
      cases hheld : seen.held with
      | none => simp [accounted_of_none hheld]
      | some pending => simp [accounted_of_held hheld]
  · obtain ⟨text, heq⟩ := andThen_validate_of_error hvalid _
    rw [heq]
    simp [hvalid]

theorem observeReturn_accounted (hopen : recorder.isSealed = false) (cr3 : Nat)
    (returned : ReturnPhase) :
    (recorder.observeReturn now cr3 returned).1.accounted = recorder.accounted ↔
      recorder.Keeps (.observe (.returned cr3 returned)) := by
  unfold observeReturn Keeps
  dsimp only [Accepts, Retires]
  by_cases hvalid : (recorder.validateObservation cr3 returned.site "return").2 = .ok ()
  · rw [andThen_validate_of_ok hvalid, ← @noted_accounted recorder returned.site.epoch,
      ← @noted_held recorder returned.site.epoch]
    simp only [hvalid, forall_const, ← @noted_passes recorder returned.site.epoch]
    rw [← @noted_isSealed recorder returned.site.epoch] at hopen
    generalize recorder.noted returned.site.epoch = seen at hopen
    simp only [hopen, Bool.false_eq_true, if_false]
    split
    · next pending hheld =>
      replace hheld : seen.held = some pending := hheld
      simp only [hheld, Option.mem_some, forall_eq']
      by_cases hcr3 : pending.cr3 = cr3
      · simp only [hcr3, ne_eq, not_true_eq_false, if_false, forall_const]
        by_cases hpasses : seen.Passes (seen.record pending (some returned)
            (if pending.entry.isSome then none else some .missingEntry))
        · obtain ⟨-, hcount, -⟩ := @pushRecord_of_passes seen.taken now _ hpasses hopen
          simp only [hpasses, iff_true]
          rw [accounted_of_held hheld]
          exact hcount
        · obtain ⟨text, hgone⟩ := @pushRecord_of_not_passes seen.taken now
            (seen.taken.record pending (some returned)
              (if pending.entry.isSome then none else some .missingEntry)) hpasses
          simp only [hpasses, iff_false]
          rw [accounted_of_held hheld, hgone]
          dsimp only
          omega
      · simp [hcr3]
    · next hheld =>
      replace hheld : seen.held = none := hheld
      rw [accounted_of_none hheld]
      simp [hheld]
  · obtain ⟨text, heq⟩ := andThen_validate_of_error hvalid _
    rw [heq]
    simp [hvalid]

theorem finish_accounted (hopen : recorder.isSealed = false) :
    (recorder.finish now).1.accounted = recorder.accounted ↔ recorder.Keeps .finish := by
  unfold finish Keeps
  dsimp only [Accepts, Retires]
  rw [if_neg (Bool.eq_false_iff.mp hopen)]
  split
  · next pending hheld =>
    replace hheld : recorder.held = some pending := hheld
    simp only [hheld, Option.mem_some, forall_eq', forall_const]
    rw [accounted_of_held hheld]
    by_cases hpasses : recorder.Passes (recorder.record pending none (some .stopped))
    · obtain ⟨hok, hcount, -⟩ := @pushRecord_of_passes recorder.taken now _ hpasses hopen
      simp only [hpasses, iff_true]
      unfold andThen
      rw [show (recorder.taken.sealPending now pending none .stopped).2 = .ok () from hok]
      dsimp only
      rw [sealNow_accounted]
      exact hcount
    · obtain ⟨text, hgone⟩ := @sealPending_of_not_passes recorder now pending .stopped
        (fun recorder => (recorder.sealNow now, .ok ())) hpasses
      rw [hgone]
      simp [hpasses]
  · next hheld =>
    replace hheld : recorder.held = none := hheld
    rw [sealNow_accounted, accounted_of_none hheld]
    simp [hheld]

theorem apply_accounted (hopen : recorder.isSealed = false) (operation : Operation) :
    (recorder.apply now operation).1.accounted =
        recorder.accounted + recorder.selects (recorder.apply now operation).2 operation ↔
      recorder.Keeps operation := by
  cases operation with
  | finish => exact finish_accounted hopen
  | observe observation =>
    cases observation with
    | entry cr3 entry => exact observeEntry_accounted hopen cr3 entry
    | dispatch cr3 service dispatch => exact observeDispatch_accounted hopen cr3 service dispatch
    | returned cr3 returned => exact observeReturn_accounted hopen cr3 returned

end Recorder

theorem Recorder.new_accounted {traceId : String} {label : Option String}
    {manifest : ServiceManifest} {target : SkControl.TargetIdentity} {imageBase : Nat}
    {limits : TraceLimits} {recorder : Recorder}
    (h : Recorder.new traceId label manifest target imageBase limits = .ok recorder) :
    recorder.accounted = 0 := by
  unfold Recorder.new at h
  split at h
  · cases h
  split at h
  · cases h
  split at h
  · cases h
  cases h
  rfl

structure Tally where
  recorder : Recorder
  selected : Nat
  deriving DecidableEq, Repr

namespace Tally

def step (tally : Tally) (input : Recorder.Operation × Option HostQpcSample) : Tally where
  recorder := (tally.recorder.apply input.2 input.1).1
  selected := tally.selected +
    tally.recorder.selects (tally.recorder.apply input.2 input.1).2 input.1

def Accounted (tally : Tally) : Prop := tally.selected = tally.recorder.accounted

end Tally

/-- At every point of a run over an open recorder the selected calls are accounted for, just
when every operation of it that takes a dispatched call out of the slot retires that call. -/
theorem calls_accounted_iff {traceId : String} {label : Option String}
    {manifest : ServiceManifest} {target : SkControl.TargetIdentity} {imageBase : Nat}
    {limits : TraceLimits} {recorder : Recorder}
    (hnew : Recorder.new traceId label manifest target imageBase limits = .ok recorder)
    (inputs : List (Recorder.Operation × Option HostQpcSample))
    (hopen : ∀ visit ∈ visits Tally.step ⟨recorder, 0⟩ inputs, visit.1.recorder.isSealed = false) :
    (∀ front, front <+: inputs → (run Tally.step ⟨recorder, 0⟩ front).Accounted) ↔
      ∀ visit ∈ visits Tally.step ⟨recorder, 0⟩ inputs, visit.1.recorder.Keeps visit.2.1 := by
  apply forall_prefix_iff Tally.Accounted (fun tally _ => tally.recorder.isSealed = false)
    (fun tally (input : Recorder.Operation × Option HostQpcSample) => tally.recorder.Keeps input.1)
  · intro tally input hcounted hunsealed
    rw [← @Recorder.apply_accounted tally.recorder input.2 hunsealed input.1]
    unfold Tally.Accounted Tally.step at *
    dsimp only
    omega
  · exact (Recorder.new_accounted hnew).symm
  · exact hopen

namespace Sample

def selected (epoch : String) (time : Nat) : Recorder.Operation × Option HostQpcSample :=
  (.observe (.dispatch 0x1000 47 (dispatched epoch time)), none)

def single : Recorder := { recorder with limits := { limits with records := 1 } }

end Sample

/-- Two calls on a trace with room for four records. -/
theorem calls_accounted_iff_two :
    (∀ front, front <+: [Sample.selected "first" 1, Sample.selected "second" 2] →
        (run Tally.step ⟨Sample.recorder, 0⟩ front).Accounted) ↔
      ∀ visit ∈ visits Tally.step ⟨Sample.recorder, 0⟩
          [Sample.selected "first" 1, Sample.selected "second" 2],
        visit.1.recorder.Keeps visit.2.1 := by
  apply calls_accounted_iff Sample.new_recorder
  decide +kernel

/-- The second call fills a trace of one record with the first, and is itself accepted: it is
nowhere. -/
theorem filling_dispatch_lost :
    ¬ ∀ (recorder : Recorder) (inputs : List (Recorder.Operation × Option HostQpcSample)),
      (∃ traceId label manifest target imageBase limits,
        Recorder.new traceId label manifest target imageBase limits = .ok recorder) →
      (∀ visit ∈ visits Tally.step ⟨recorder, 0⟩ inputs, visit.1.recorder.isSealed = false) →
        (run Tally.step ⟨recorder, 0⟩ inputs).Accounted := by
  intro h
  have hlost := h Sample.single [Sample.selected "first" 1, Sample.selected "second" 2]
    ⟨"sktrace-0000000001", none, Sample.manifest, Sample.target, 0x10000000,
      { Sample.limits with records := 1 }, by decide⟩ (by decide +kernel)
  unfold Tally.Accounted at hlost
  exact absurd hlost (by decide +kernel)

end WindbgMcp.SkServiceTrace
