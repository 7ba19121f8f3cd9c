import Mathlib.Data.List.Nodup
import Mathlib.Data.List.Range
import WindbgMcp.Library.Run
import WindbgMcp.SkServiceTrace.Recorder

/-! Invariants of the shared trace under every interleaving of observations, stop
requests, snapshots and `finish`.  Each recorder operation follows from the one before it
in the sense of `Follows`; the lock adds the stop bit. -/
namespace WindbgMcp.SkServiceTrace
open Library
open SkControl (StopEpoch)
open Structured (HostQpcSample)

/-- What holds of the retained records: they are numbered in order, they fit the limits,
and nothing is dropped before the trace is sealed. -/
structure Recorder.Sound (recorder : Recorder) : Prop where
  count : recorder.records.length ≤ recorder.limits.records
  retained : (recorder.records.map ServiceCallRecord.capturedBytes).sum =
    recorder.retainedCaptureBytes
  bounded : recorder.retainedCaptureBytes ≤ recorder.limits.totalCaptureBytes
  numbered : recorder.records.map ServiceCallRecord.sequence =
    List.range' 1 recorder.records.length
  undropped : recorder.isSealed = false → recorder.droppedRecords = 0

structure Recorder.Follows (before after : Recorder) : Prop where
  sound : before.Sound → after.Sound
  records : before.records <+: after.records
  seen : ∀ epoch ∈ before.seenEpochs, epoch ∈ after.seenEpochs
  traceId : after.traceId = before.traceId
  limits : after.limits = before.limits

namespace Recorder

variable {recorder before after : Recorder} {now : Option HostQpcSample}

theorem Follows.refl (recorder : Recorder) : Follows recorder recorder :=
  ⟨id, List.prefix_refl _, fun _ => id, rfl, rfl⟩

theorem Follows.trans {last : Recorder} (hfirst : Follows before after)
    (hsecond : Follows after last) : Follows before last where
  sound := fun hsound => hsecond.sound (hfirst.sound hsound)
  records := hfirst.records.trans hsecond.records
  seen := fun epoch hepoch => hsecond.seen epoch (hfirst.seen epoch hepoch)
  traceId := hsecond.traceId.trans hfirst.traceId
  limits := hsecond.limits.trans hfirst.limits

theorem follows_pending (recorder : Recorder) (pending : Option PendingCall) :
    Follows recorder { recorder with pending := pending } where
  sound := fun h => ⟨h.count, h.retained, h.bounded, h.numbered, h.undropped⟩
  records := List.prefix_refl _
  seen := fun _ => id
  traceId := rfl
  limits := rfl

theorem follows_seen (recorder : Recorder) (epoch : StopEpoch) :
    Follows recorder { recorder with seenEpochs := epoch :: recorder.seenEpochs } where
  sound := fun h => ⟨h.count, h.retained, h.bounded, h.numbered, h.undropped⟩
  records := List.prefix_refl _
  seen := fun _ => List.mem_cons_of_mem _
  traceId := rfl
  limits := rfl

theorem follows_dropped (h : recorder.isSealed = true) (dropped : Nat) :
    Follows recorder { recorder with droppedRecords := dropped } where
  sound := fun hsound => ⟨hsound.count, hsound.retained, hsound.bounded, hsound.numbered,
    fun hopen => absurd (h.symm.trans hopen) Bool.noConfusion⟩
  records := List.prefix_refl _
  seen := fun _ => id
  traceId := rfl
  limits := rfl

theorem sealNow_follows (recorder : Recorder) (now : Option HostQpcSample) :
    Follows recorder (recorder.sealNow now) := by
  unfold sealNow
  split
  · exact Follows.refl _
  · exact ⟨fun h => ⟨h.count, h.retained, h.bounded, h.numbered, Bool.noConfusion⟩,
      List.prefix_refl _, fun _ => id, rfl, rfl⟩

theorem dropped_follows (hopen : recorder.isSealed = false) (dropped bytes : Nat) :
    Follows recorder (sealNow { recorder with
      droppedRecords := dropped
      droppedCaptureBytes := bytes } now) := by
  simp only [sealNow, hopen, Bool.false_eq_true, if_false]
  exact ⟨fun h => ⟨h.count, h.retained, h.bounded, h.numbered, Bool.noConfusion⟩,
    List.prefix_refl _, fun _ => id, rfl, rfl⟩

theorem pushed_follows {record : ServiceCallRecord} {unreadable : Nat}
    (hopen : recorder.isSealed = false)
    (hsequence : record.sequence = recorder.records.length + recorder.droppedRecords + 1)
    (hcount : recorder.records.length < recorder.limits.records)
    (hbytes : recorder.retainedCaptureBytes + record.capturedBytes ≤
      recorder.limits.totalCaptureBytes) :
    Follows recorder { recorder with
      unreadableFields := unreadable
      retainedCaptureBytes := recorder.retainedCaptureBytes + record.capturedBytes
      records := recorder.records ++ [record] } where
  sound := by
    intro h
    have hdropped := h.undropped hopen
    refine ⟨?_, ?_, hbytes, ?_, h.undropped⟩
    · rw [List.length_append, List.length_singleton]
      exact hcount
    · rw [List.map_append, List.sum_append, h.retained]
      simp
    · rw [List.map_append, h.numbered, List.length_append, List.length_singleton,
        List.range'_concat]
      simp [hsequence, hdropped, Nat.add_comm]
  records := List.prefix_append _ _
  seen := fun _ => id
  traceId := rfl
  limits := rfl

theorem pushRecord_follows {record : ServiceCallRecord} (hopen : recorder.isSealed = false)
    (hsequence : record.sequence = recorder.records.length + recorder.droppedRecords + 1) :
    Follows recorder (recorder.pushRecord now record).1 := by
  unfold pushRecord
  cases record.validate recorder.manifest recorder.limits with
  | error text => exact Follows.refl _
  | ok _ =>
    dsimp only
    split
    · exact dropped_follows hopen _ _
    · rename_i hfits
      simp only [not_or, Nat.not_le, Nat.not_lt] at hfits
      have hpushed := @pushed_follows recorder record
        (recorder.unreadableFields + record.unreadableFields) hopen hsequence hfits.1 hfits.2.2
      split
      · exact hpushed.trans (sealNow_follows _ now)
      · exact hpushed

theorem sealPending_follows {pending : PendingCall} {returned : Option ReturnPhase}
    {reason : IncompleteReason} (hopen : recorder.isSealed = false) :
    Follows recorder (recorder.sealPending now pending returned reason).1 :=
  pushRecord_follows hopen rfl

theorem andThen_fst (outcome : Recorder × Except String Unit)
    (next : Recorder → Recorder × Except String Unit) :
    (andThen outcome next).1 = outcome.1 ∨ (andThen outcome next).1 = (next outcome.1).1 := by
  unfold andThen
  split
  · exact .inl rfl
  · exact .inr rfl

theorem andThen_follows {outcome : Recorder × Except String Unit}
    {next : Recorder → Recorder × Except String Unit} (hfirst : Follows before outcome.1)
    (hnext : ∀ recorder, Follows recorder (next recorder).1) :
    Follows before (andThen outcome next).1 := by
  rcases andThen_fst outcome next with heq | heq
  · rw [heq]
    exact hfirst
  · rw [heq]
    exact hfirst.trans (hnext _)

theorem await_follows (pending : PendingCall) (recorder : Recorder) :
    Follows recorder (await pending recorder).1 := by
  unfold await
  split
  · exact Follows.refl _
  · exact follows_pending _ _

/-- The observation is refused at once, or its epoch is new and the rest follows. -/
theorem andThen_validate {cr3 : Nat} {site : PhaseSite} {phase : String}
    {next : Recorder → Recorder × Except String Unit}
    (hnext : ∀ recorder, Follows recorder (next recorder).1) :
    (∃ text, andThen (recorder.validateObservation cr3 site phase) next =
        (recorder, .error text)) ∨
      (site.epoch ∉ recorder.seenEpochs ∧
        Follows { recorder with seenEpochs := site.epoch :: recorder.seenEpochs }
          (andThen (recorder.validateObservation cr3 site phase) next).1) := by
  unfold validateObservation
  split
  · exact .inl ⟨_, rfl⟩
  split
  · exact .inl ⟨_, rfl⟩
  split
  · exact .inl ⟨_, rfl⟩
  split
  · exact .inl ⟨_, rfl⟩
  rename_i hfresh
  exact .inr ⟨hfresh, hnext _⟩

end Recorder

def Observation.site : Observation → PhaseSite
  | .entry _ observed => observed.site
  | .dispatch _ _ observed => observed.site
  | .returned _ observed => observed.site

namespace Recorder

variable {recorder : Recorder} {now : Option HostQpcSample}

theorem observe_spec (recorder : Recorder) (now : Option HostQpcSample)
    (observation : Observation) :
    (∃ text, recorder.observe now observation = (recorder, .error text)) ∨
      (observation.site.epoch ∉ recorder.seenEpochs ∧
        Follows { recorder with
            seenEpochs := observation.site.epoch :: recorder.seenEpochs }
          (recorder.observe now observation).1) := by
  cases observation with
  | entry cr3 entry =>
    unfold observe observeEntry
    apply andThen_validate
    intro recorder
    split
    · exact Follows.refl _
    rename_i hopen
    replace hopen : recorder.isSealed = false := by simpa using hopen
    split
    · exact (follows_pending recorder none).trans
        (andThen_follows (sealPending_follows hopen) (await_follows _))
    · exact (follows_pending recorder none).trans (await_follows _ _)
  | dispatch cr3 service dispatch =>
    unfold observe observeDispatch
    dsimp only
    split
    · exact .inl ⟨_, rfl⟩
    apply andThen_validate
    intro recorder
    split
    · exact follows_dropped (by assumption) _
    rename_i hopen
    replace hopen : recorder.isSealed = false := by simpa using hopen
    split
    · exact follows_pending _ _
    split
    · split
      · split
        · exact follows_pending _ _
        · exact follows_pending _ _
      · exact (follows_pending recorder none).trans
          (andThen_follows (sealPending_follows hopen) (await_follows _))
    · exact follows_pending _ _
  | returned cr3 returned =>
    unfold observe observeReturn
    apply andThen_validate
    intro recorder
    split
    · exact follows_dropped (by assumption) _
    rename_i hopen
    replace hopen : recorder.isSealed = false := by simpa using hopen
    split
    · split
      · exact Follows.refl _
      · exact (follows_pending recorder none).trans (pushRecord_follows hopen rfl)
    · exact follows_pending _ _

theorem observe_follows (observation : Observation) :
    Follows recorder (recorder.observe now observation).1 := by
  rcases observe_spec recorder now observation with ⟨text, heq⟩ | ⟨-, hfollows⟩
  · rw [heq]
    exact Follows.refl _
  · exact (follows_seen recorder _).trans hfollows

theorem observeAll_follows (recorder : Recorder) (observations : List Observation) :
    Follows recorder (recorder.observeAll now observations).1 := by
  induction observations generalizing recorder with
  | nil => exact Follows.refl _
  | cons observation rest ih => exact andThen_follows (observe_follows observation) ih

theorem finish_follows (recorder : Recorder) : Follows recorder (recorder.finish now).1 := by
  unfold finish
  split
  · exact Follows.refl _
  rename_i hopen
  replace hopen : recorder.isSealed = false := by simpa using hopen
  split
  · apply (follows_pending recorder none).trans
    exact andThen_follows (sealPending_follows hopen) fun recorder => sealNow_follows recorder now
  · exact (follows_pending recorder none).trans (sealNow_follows _ now)

end Recorder

namespace Recorder

@[simp] theorem sealNow_records (recorder : Recorder) (now : Option HostQpcSample) :
    (recorder.sealNow now).records = recorder.records := by
  unfold sealNow
  split <;> rfl

theorem sealNow_isSealed (recorder : Recorder) (now : Option HostQpcSample) :
    (recorder.sealNow now).isSealed = true := by
  unfold sealNow
  split
  · assumption
  · rfl

@[simp] theorem sealNow_pending (recorder : Recorder) (now : Option HostQpcSample) :
    (recorder.sealNow now).pending = recorder.pending := by
  unfold sealNow
  split <;> rfl

@[simp] theorem pushRecord_pending (recorder : Recorder) (now : Option HostQpcSample)
    (record : ServiceCallRecord) :
    (recorder.pushRecord now record).1.pending = recorder.pending := by
  unfold pushRecord
  split
  · rfl
  · dsimp only
    split
    · rw [sealNow_pending]
    · split
      · rw [sealNow_pending]
      · rfl

theorem pushRecord_records (recorder : Recorder) (now : Option HostQpcSample)
    (record : ServiceCallRecord) :
    (recorder.pushRecord now record).1.records = recorder.records ∨
      (recorder.pushRecord now record).1.records = recorder.records ++ [record] := by
  unfold pushRecord
  split
  · exact .inl rfl
  · dsimp only
    split
    · exact .inl (sealNow_records _ _)
    · split
      · exact .inr (sealNow_records _ _)
      · exact .inr rfl

end Recorder

/-- What `finish` adds: nothing, or the record of the dispatched call it finds pending. -/
theorem Recorder.finish_records (recorder : Recorder) (now : Option HostQpcSample) :
    (recorder.isSealed = true ∧ (recorder.finish now).1 = recorder) ∨
      ((recorder.finish now).1.pending = none ∧
        ((recorder.finish now).1.records = recorder.records ∨
          ∃ pending, recorder.pending = some pending ∧ pending.dispatch.isSome = true ∧
            (recorder.finish now).1.records =
              recorder.records ++ [recorder.record pending none (some .stopped)])) := by
  unfold finish
  split
  · exact .inl ⟨by assumption, rfl⟩
  right
  split
  · rename_i pending hpending
    obtain ⟨hsome, hdispatch⟩ := Option.filter_eq_some_iff.mp hpending
    have hpushed := pushRecord_records recorder.taken now
      (recorder.record pending none (some .stopped))
    have hnone := pushRecord_pending recorder.taken now
      (recorder.record pending none (some .stopped))
    rcases andThen_fst (recorder.taken.sealPending now pending none .stopped)
        (fun recorder => (recorder.sealNow now, .ok ())) with heq | heq
    · rw [heq]
      exact ⟨hnone, hpushed.imp id fun happend => ⟨pending, hsome, hdispatch, happend⟩⟩
    · rw [heq, sealNow_pending, sealNow_records]
      exact ⟨hnone, hpushed.imp id fun happend => ⟨pending, hsome, hdispatch, happend⟩⟩
  · exact ⟨sealNow_pending _ _, .inl (sealNow_records _ _)⟩

/-- One use of the shared trace; the sample is the clock at that moment. -/
inductive Use where
  | observe (observations : List Observation)
  | requestStop (traceId : String)
  | snapshot (traceId : String)
  | finish
deriving DecidableEq, Repr

abbrev Input := Use × Option HostQpcSample

def SharedTrace.step (shared : SharedTrace) (input : Input) : SharedTrace :=
  match input.1 with
  | .observe observations => (shared.observe input.2 observations).1
  | .requestStop traceId => (shared.requestStop traceId).1
  | .snapshot _ => shared
  | .finish => (shared.finish input.2).1

def stopAnswer (visit : SharedTrace × Input) : Option StopRequest :=
  match visit.2.1 with
  | .requestStop traceId =>
    match (visit.1.requestStop traceId).2 with
    | .ok answer => some answer
    | .error _ => none
  | _ => none

def Recorder.acceptedEpochs (now : Option HostQpcSample) :
    Recorder → List Observation → List StopEpoch
  | _, [] => []
  | recorder, observation :: rest =>
    match (recorder.observe now observation).2 with
    | .error _ => []
    | .ok _ =>
      observation.site.epoch :: acceptedEpochs now (recorder.observe now observation).1 rest

def acceptedBy (visit : SharedTrace × Input) : List StopEpoch :=
  match visit.2.1 with
  | .observe observations =>
    if visit.1.stopRequested ∨ visit.1.recorder.isSealed then []
    else visit.1.recorder.acceptedEpochs visit.2.2 observations
  | _ => []

namespace SharedTrace

variable {shared : SharedTrace}

theorem requestStop_cases (shared : SharedTrace) (traceId : String) :
    (∃ text, shared.requestStop traceId = (shared, .error text)) ∨
      (shared.recorder.isSealed = true ∧ shared.requestStop traceId = (shared, .ok .finished)) ∨
      (shared.stopRequested = true ∧
        shared.requestStop traceId = (shared, .ok .alreadyRequested)) ∨
      (shared.stopRequested = false ∧
        shared.requestStop traceId = ({ shared with stopRequested := true }, .ok .first)) := by
  unfold requestStop
  split
  · exact .inl ⟨_, rfl⟩
  split
  · exact .inr (.inl ⟨by assumption, rfl⟩)
  split
  · exact .inr (.inr (.inl ⟨by assumption, rfl⟩))
  · rename_i hbit
    exact .inr (.inr (.inr ⟨by simpa using hbit, rfl⟩))

theorem requestStop_recorder (shared : SharedTrace) (traceId : String) :
    (shared.requestStop traceId).1.recorder = shared.recorder := by
  rcases requestStop_cases shared traceId with ⟨text, heq⟩ | ⟨-, heq⟩ | ⟨-, heq⟩ | ⟨-, heq⟩ <;>
    rw [heq]

theorem step_follows (shared : SharedTrace) (input : Input) :
    shared.recorder.Follows (shared.step input).recorder := by
  unfold step
  split
  · unfold observe
    split
    · exact .refl _
    split
    · exact .refl _
    exact Recorder.observeAll_follows _ _
  · rw [requestStop_recorder]
    exact .refl _
  · exact .refl _
  · exact Recorder.finish_follows _

theorem run_follows (shared : SharedTrace) (inputs : List Input) :
    shared.recorder.Follows (run step shared inputs).recorder := by
  induction inputs generalizing shared with
  | nil => exact .refl _
  | cons input inputs ih => exact (step_follows shared input).trans (ih _)

theorem step_of_sealed (h : shared.recorder.isSealed = true) (input : Input) :
    (shared.step input).recorder = shared.recorder := by
  unfold step
  split
  · unfold observe
    rw [if_pos h]
    split <;> rfl
  · exact requestStop_recorder _ _
  · rfl
  · unfold finish Recorder.finish
    rw [if_pos h]

theorem run_of_sealed (h : shared.recorder.isSealed = true) (inputs : List Input) :
    (run step shared inputs).recorder = shared.recorder := by
  induction inputs generalizing shared with
  | nil => rfl
  | cons input inputs ih =>
    have hstep := step_of_sealed h input
    rw [run_cons, ih (hstep ▸ h), hstep]

/-- Once a stop is requested the recorder is as it was, or `finish` has emptied it. -/
structure Stopped (start : Recorder) (shared : SharedTrace) : Prop where
  requested : shared.stopRequested = true
  finished : shared.recorder = start ∨
    (shared.recorder.pending = none ∧
      (shared.recorder.records = start.records ∨
        ∃ pending, start.pending = some pending ∧ pending.dispatch.isSome = true ∧
          shared.recorder.records =
            start.records ++ [start.record pending none (some .stopped)]))

theorem Stopped.step {start : Recorder} (h : Stopped start shared) (input : Input) :
    Stopped start (shared.step input) := by
  unfold SharedTrace.step
  split
  · unfold observe
    rw [if_pos h.requested]
    exact h
  · have hbit : shared.stopRequested ≠ false := by simp [h.requested]
    rcases requestStop_cases shared _ with ⟨text, heq⟩ | ⟨-, heq⟩ | ⟨-, heq⟩ | ⟨hopen, -⟩
    · rw [heq]
      exact h
    · rw [heq]
      exact h
    · rw [heq]
      exact h
    · exact absurd hopen hbit
  · exact h
  · refine ⟨h.requested, ?_⟩
    rw [show (shared.finish input.2).1.recorder = (shared.recorder.finish input.2).1 from rfl]
    rcases Recorder.finish_records shared.recorder input.2 with ⟨-, heq⟩ | ⟨hnone, hrecords⟩
    · rw [heq]
      exact h.finished
    refine .inr ⟨hnone, ?_⟩
    rcases h.finished with rfl | ⟨hempty, hkept⟩
    · exact hrecords
    rcases hrecords with hsame | ⟨pending, hpending, -⟩
    · rw [hsame]
      exact hkept
    · rw [hempty] at hpending
      cases hpending

theorem Stopped.run {start : Recorder} (h : Stopped start shared) (inputs : List Input) :
    Stopped start (Library.run SharedTrace.step shared inputs) := by
  induction inputs generalizing shared with
  | nil => exact h
  | cons input inputs ih => exact ih (h.step input)

theorem stopped_of_answer {traceId : String} {now : Option HostQpcSample}
    (h : stopAnswer (shared, .requestStop traceId, now) = some .first ∨
      stopAnswer (shared, .requestStop traceId, now) = some .alreadyRequested) :
    Stopped shared.recorder (shared.step (.requestStop traceId, now)) := by
  simp only [stopAnswer, SharedTrace.step] at h ⊢
  rcases requestStop_cases shared traceId with ⟨text, heq⟩ | ⟨-, heq⟩ | ⟨hbit, heq⟩ | ⟨-, heq⟩
  · simp [heq] at h
  · simp [heq] at h
  · rw [heq]
    exact ⟨hbit, .inl rfl⟩
  · rw [heq]
    exact ⟨rfl, .inl rfl⟩

/-- Only a request answered `First` moves the stop bit, and it finds it clear. -/
theorem step_stopRequested (shared : SharedTrace) (input : Input) :
    (stopAnswer (shared, input) = some .first ∧ shared.stopRequested = false ∧
        (shared.step input).stopRequested = true) ∨
      (stopAnswer (shared, input) ≠ some .first ∧
        (shared.step input).stopRequested = shared.stopRequested) := by
  obtain ⟨use, now⟩ := input
  cases use with
  | observe observations =>
    refine .inr ⟨nofun, ?_⟩
    simp only [SharedTrace.step, observe]
    split
    · rfl
    split <;> rfl
  | requestStop traceId =>
    simp only [stopAnswer, SharedTrace.step]
    rcases requestStop_cases shared traceId with ⟨text, heq⟩ | ⟨-, heq⟩ | ⟨-, heq⟩ | ⟨hbit, heq⟩
    · rw [heq]
      exact .inr ⟨nofun, rfl⟩
    · rw [heq]
      exact .inr ⟨nofun, rfl⟩
    · rw [heq]
      exact .inr ⟨nofun, rfl⟩
    · rw [heq]
      exact .inl ⟨rfl, hbit, rfl⟩
  | snapshot traceId => exact .inr ⟨nofun, rfl⟩
  | finish => exact .inr ⟨nofun, rfl⟩

theorem firsts_le_one (shared : SharedTrace) (inputs : List Input) :
    ((visits step shared inputs).filter fun visit => stopAnswer visit = some .first).length ≤
      if shared.stopRequested then 0 else 1 := by
  induction inputs generalizing shared with
  | nil => exact Nat.zero_le _
  | cons input inputs ih =>
    have htail := ih (shared.step input)
    rw [visits, List.filter_cons]
    rcases step_stopRequested shared input with ⟨hfirst, hclear, hset⟩ | ⟨hother, hsame⟩
    · rw [hset, if_pos rfl] at htail
      rw [hclear, if_pos (by simpa using hfirst), List.length_cons, if_neg Bool.false_ne_true]
      omega
    · rw [hsame] at htail
      rw [if_neg (by simpa using hother)]
      exact htail


end SharedTrace

theorem Recorder.acceptedEpochs_spec (recorder : Recorder) (now : Option HostQpcSample)
    (observations : List Observation) :
    (recorder.acceptedEpochs now observations).Nodup ∧
      ∀ epoch ∈ recorder.acceptedEpochs now observations, epoch ∉ recorder.seenEpochs ∧
        epoch ∈ (recorder.observeAll now observations).1.seenEpochs := by
  induction observations generalizing recorder with
  | nil => exact ⟨List.nodup_nil, nofun⟩
  | cons observation rest ih =>
    obtain ⟨hnodup, hmem⟩ := ih (recorder.observe now observation).1
    unfold Recorder.acceptedEpochs Recorder.observeAll Recorder.andThen
    cases hresult : (recorder.observe now observation).2 with
    | error text => exact ⟨List.nodup_nil, nofun⟩
    | ok _ =>
      dsimp only
      rcases Recorder.observe_spec recorder now observation with ⟨text, heq⟩ | ⟨hfresh, hfollows⟩
      · rw [heq] at hresult
        cases hresult
      have hseen := hfollows.seen observation.site.epoch List.mem_cons_self
      refine ⟨List.nodup_cons.mpr ⟨fun hagain => (hmem _ hagain).1 hseen, hnodup⟩, ?_⟩
      intro epoch hepoch
      cases hepoch with
      | head => exact ⟨hfresh, (Recorder.observeAll_follows _ rest).seen _ hseen⟩
      | tail _ hlater =>
        obtain ⟨hnew, hkept⟩ := hmem epoch hlater
        exact ⟨fun hold => hnew (hfollows.seen epoch (List.mem_cons_of_mem _ hold)), hkept⟩

namespace SharedTrace

/-- What a use gets accepted it has not seen before, and has seen afterwards. -/
theorem acceptedBy_spec (shared : SharedTrace) (input : Input) :
    (acceptedBy (shared, input)).Nodup ∧
      ∀ epoch ∈ acceptedBy (shared, input), epoch ∉ shared.recorder.seenEpochs ∧
        epoch ∈ (shared.step input).recorder.seenEpochs := by
  obtain ⟨use, now⟩ := input
  cases use with
  | observe observations =>
    have hspec := shared.recorder.acceptedEpochs_spec now observations
    simp only [acceptedBy, SharedTrace.step, observe]
    cases shared.stopRequested with
    | true => exact ⟨List.nodup_nil, nofun⟩
    | false =>
      cases shared.recorder.isSealed with
      | true => exact ⟨List.nodup_nil, nofun⟩
      | false => exact hspec
  | requestStop traceId => exact ⟨List.nodup_nil, nofun⟩
  | snapshot traceId => exact ⟨List.nodup_nil, nofun⟩
  | finish => exact ⟨List.nodup_nil, nofun⟩

theorem accepted_spec (shared : SharedTrace) (inputs : List Input) :
    ((visits step shared inputs).flatMap acceptedBy).Nodup ∧
      ∀ epoch ∈ (visits step shared inputs).flatMap acceptedBy,
        epoch ∉ shared.recorder.seenEpochs := by
  induction inputs generalizing shared with
  | nil => exact ⟨List.nodup_nil, nofun⟩
  | cons input inputs ih =>
    obtain ⟨hnodup, hfresh⟩ := ih (shared.step input)
    obtain ⟨hhead, hmem⟩ := acceptedBy_spec shared input
    rw [visits, List.flatMap_cons]
    constructor
    · apply hhead.append hnodup
      intro epoch hfirst hlater
      exact hfresh epoch hlater (hmem epoch hfirst).2
    · intro epoch hepoch
      cases List.mem_append.mp hepoch with
      | inl hfirst => exact (hmem epoch hfirst).1
      | inr hlater =>
        exact fun hold => hfresh epoch hlater ((step_follows shared input).seen epoch hold)

end SharedTrace

theorem SharedTrace.snapshot_eq {shared : SharedTrace} {now : Option HostQpcSample}
    {traceId : String} {trace : ServiceTrace} (h : shared.snapshot now traceId = .ok trace) :
    trace = shared.recorder.completedPrefix now := by
  unfold SharedTrace.snapshot at h
  split at h
  · cases h
  · exact (Except.ok.inj h).symm

theorem Recorder.new_sound {traceId : String} {label : Option String} {manifest : ServiceManifest}
    {target : SkControl.TargetIdentity} {imageBase : Nat} {limits : TraceLimits}
    {recorder : Recorder}
    (h : Recorder.new traceId label manifest target imageBase limits = .ok recorder) :
    recorder.Sound ∧ recorder.limits = limits := by
  unfold Recorder.new at h
  split at h
  · cases h
  split at h
  · cases h
  split at h
  · cases h
  cases h
  exact ⟨⟨Nat.zero_le _, rfl, Nat.zero_le _, rfl, fun _ => rfl⟩, rfl⟩

/-- Every interleaving of observations, stop requests, snapshots and `finish` on one trace:
later snapshots extend earlier ones, the limits hold and the bytes add up, records are
numbered upwards, one stop request at most is answered `First`, a heeded request leaves
room for nothing but the record `finish` makes of the call pending then, a sealed trace
stays as it is, and no epoch is accepted twice. -/
theorem shared_trace_holds {traceId : String} {label : Option String}
    {manifest : ServiceManifest} {target : SkControl.TargetIdentity} {imageBase : Nat}
    {limits : TraceLimits} {recorder : Recorder}
    (hnew : Recorder.new traceId label manifest target imageBase limits = .ok recorder)
    (inputs more : List Input) :
    let start := SharedTrace.new recorder
    let shared := run SharedTrace.step start inputs
    let later := run SharedTrace.step shared more
    (∀ wanted now afterwards early late, shared.snapshot now wanted = .ok early →
      later.snapshot afterwards wanted = .ok late →
      early.records <+: late.records ∧ (shared.recorder.isSealed = true → late = early)) ∧
    shared.recorder.records.length ≤ limits.records ∧
    (shared.recorder.records.map ServiceCallRecord.capturedBytes).sum =
      shared.recorder.retainedCaptureBytes ∧
    shared.recorder.retainedCaptureBytes ≤ limits.totalCaptureBytes ∧
    (shared.recorder.records.map ServiceCallRecord.sequence).Pairwise (· < ·) ∧
    ((visits SharedTrace.step start inputs).filter fun visit =>
      stopAnswer visit = some .first).length ≤ 1 ∧
    (∀ wanted now,
      stopAnswer (shared, .requestStop wanted, now) = some .first ∨
        stopAnswer (shared, .requestStop wanted, now) = some .alreadyRequested →
      let stopped := run SharedTrace.step (shared.step (.requestStop wanted, now)) more
      stopped.recorder.records = shared.recorder.records ∨
        ∃ pending, shared.recorder.pending = some pending ∧ pending.dispatch.isSome = true ∧
          stopped.recorder.records = shared.recorder.records ++
            [shared.recorder.record pending none (some .stopped)]) ∧
    ((visits SharedTrace.step start inputs).flatMap acceptedBy).Nodup := by
  intro start shared later
  obtain ⟨hstart, hlimits⟩ := Recorder.new_sound hnew
  have hfollows := SharedTrace.run_follows start inputs
  have hsound : shared.recorder.Sound := hfollows.sound hstart
  have hkept : shared.recorder.limits = limits := hfollows.limits.trans hlimits
  refine ⟨?_, hkept ▸ hsound.count, hsound.retained, hkept ▸ hsound.bounded, ?_, ?_, ?_, ?_⟩
  · intro wanted now afterwards early late hearly hlate
    rw [SharedTrace.snapshot_eq hearly, SharedTrace.snapshot_eq hlate]
    refine ⟨(SharedTrace.run_follows shared more).records, fun hsealed => ?_⟩
    rw [show later.recorder = shared.recorder from SharedTrace.run_of_sealed hsealed more]
    simp only [Recorder.completedPrefix, hsealed, if_true]
  · rw [hsound.numbered]
    exact List.pairwise_lt_range'
  · exact SharedTrace.firsts_le_one start inputs
  · intro wanted now hanswer stopped
    rcases ((SharedTrace.stopped_of_answer hanswer).run more).finished with heq | ⟨-, hrecords⟩
    · exact .inl (by rw [show stopped.recorder = shared.recorder from heq])
    · exact hrecords
  · exact (SharedTrace.accepted_spec start inputs).1

namespace Sample

def manifest : ServiceManifest where
  manifestId := "service-47"
  image := ⟨0x100000⟩
  service := { number := 47, handlerSymbol := "handler", handlerRva := 0x9000, baseRegister := "r14" }
  sites :=
    [{ phase := "entry", symbol := "entry", rva := 0x1000, slot := 0 },
      { phase := "dispatch", symbol := "dispatch", rva := 0x2000, slot := 1 },
      { phase := "return", symbol := "return", rva := 0x3000, slot := 2 }]
  requestLayout :=
    { size := 2, alignment := 8, fields := [{ name := "service_number", offset := 0, width := 2 }] }
  capture :=
    { perBufferLimitMax := 64
      regions :=
        [{ name := "request", entryBaseRegister := "rcx", dispatchBaseRegister := "r14"
           offset := 0, length := 2, before := true, after := false }] }

def target : SkControl.TargetIdentity where
  vmId := "00000000-0000-0000-0000-000000000001"
  partitionId := 3
  vp := 0
  vtl := 1
  expectedCr3 := 0x1000

def limits : TraceLimits := { records := 4, perBufferBytes := 64, totalCaptureBytes := 256 }

def recorder : Recorder where
  traceId := "sktrace-0000000001"
  label := none
  manifest := manifest
  target := target
  imageBase := 0x10000000
  limits := limits
  records := []
  pending := none
  retainedCaptureBytes := 0
  droppedRecords := 0
  droppedCaptureBytes := 0
  unreadableFields := 0
  isSealed := false
  terminalHostQpc := none
  seenEpochs := []

def dispatched (epoch : String) (time : Nat) : DispatchPhase where
  site :=
    { epoch := ⟨epoch⟩, hostQpc := none, hostMonotonicUs := time, hostElapsedUs := time
      coordinate := ⟨0x10002000, 0x2000, "dispatch"⟩ }
  handler := ⟨0x10009000, 0x9000, "handler"⟩
  request := 0x5000
  fields := [⟨"service_number", 0, 2, 47⟩]
  buffersBefore := [⟨"request.before", 0x5000, 2, 2, .measured "2f00"⟩]
  provenance := ⟨["fields.service_number"], [], [], []⟩

theorem new_recorder :
    Recorder.new "sktrace-0000000001" none manifest target 0x10000000 limits = .ok recorder := by
  decide

def dispatches (epoch : String) (time : Nat) : Input :=
  (.observe [.dispatch 0x1000 47 (dispatched epoch time)], none)

def shared : SharedTrace :=
  run SharedTrace.step (SharedTrace.new recorder) [dispatches "first" 1, dispatches "second" 2]

end Sample

/-- A stop that is requested while a dispatched call is pending: the dispatch behind it is
refused, and `finish` makes the one record that was still owed. -/
theorem shared_trace_holds_stopped :
    let stopped := run SharedTrace.step
      (Sample.shared.step (.requestStop "sktrace-0000000001", none))
      [Sample.dispatches "third" 3, (.finish, none)]
    ((visits SharedTrace.step (SharedTrace.new Sample.recorder)
        [Sample.dispatches "first" 1, Sample.dispatches "second" 2]).flatMap acceptedBy).Nodup ∧
      Sample.shared.recorder.records.length = 1 ∧
      ∃ pending, Sample.shared.recorder.pending = some pending ∧
        pending.dispatch = some (Sample.dispatched "second" 2) ∧
        stopped.recorder.records = Sample.shared.recorder.records ++
          [Sample.shared.recorder.record pending none (some .stopped)] := by
  intro stopped
  have hfirst : stopAnswer (Sample.shared, .requestStop "sktrace-0000000001", none) =
      some .first := by
    decide +kernel
  have hadded : stopped.recorder.records ≠ Sample.shared.recorder.records := by
    decide +kernel
  obtain ⟨-, -, -, -, -, -, hstopped, haccepted⟩ :=
    shared_trace_holds Sample.new_recorder
      [Sample.dispatches "first" 1, Sample.dispatches "second" 2]
      [Sample.dispatches "third" 3, (.finish, none)]
  obtain hsame | ⟨pending, hpending, -, hrecords⟩ :=
    hstopped "sktrace-0000000001" none (.inl hfirst)
  · exact absurd hsame hadded
  · have hdispatch : Sample.shared.recorder.pending.bind PendingCall.dispatch =
        some (Sample.dispatched "second" 2) := by
      decide +kernel
    have hrecord : Sample.shared.recorder.pending = some pending := hpending
    rw [hrecord] at hdispatch
    exact ⟨haccepted, by decide +kernel, pending, hpending, hdispatch, hrecords⟩

end WindbgMcp.SkServiceTrace
