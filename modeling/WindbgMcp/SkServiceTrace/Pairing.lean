import WindbgMcp.SkServiceTrace.Decoder
import WindbgMcp.SkServiceTrace.Shared

/-! Every retained record pairs the phases of one request.  The decoder's queue of entries
and its stack of requests stay in step with the recorder's pending call, and each stop is
in one place at a time: among the candidates, in the pending call, or in one record. -/
namespace WindbgMcp.SkServiceTrace
open Library
open SkControl (StopEpoch)
open Structured (HostQpcSample)

variable {ρ : Type}

/-- One stop with the clocks, the buffer limit and the memory it is decoded with. -/
structure StopInput (ρ : Type) where
  stop : StopRecord
  clock : Clock
  bufferLimit : Nat
  memory : ρ
  now : Option HostQpcSample

structure Decoding (ρ : Type) where
  decoder : ObservationDecoder
  input : StopInput ρ

namespace Decoding

variable (read : ReadMemory ρ) (decoding : Decoding ρ)

def seen : ObservationDecoder :=
  { decoding.decoder with
    seenEpochs := decoding.input.stop.epoch :: decoding.decoder.seenEpochs }

def result : Except String (DecodedObservation × ObservationDecoder) :=
  (Fallible.result (ObservationDecoder.decode read decoding.decoder decoding.input.stop
    decoding.input.clock decoding.input.bufferLimit) decoding.input.memory).1

def IsEntry (candidate : PendingEntryCapture) : Prop :=
  ∃ cr3 site after, site.epoch = decoding.input.stop.epoch ∧
    Fallible.result (ObservationDecoder.decodeEntry read decoding.seen decoding.input.stop
      decoding.input.bufferLimit cr3 site) decoding.input.memory = (.ok candidate, after)

def IsDispatch (dispatch : DispatchPhase) : Prop :=
  dispatch.site.epoch = decoding.input.stop.epoch ∧
    ∃ decoded after cr3 service matchedEntry, decoding.result read = .ok (decoded, after) ∧
      decoded.event = some (.dispatch cr3 service dispatch matchedEntry)

def IsReturn (request : Nat) (returned : ReturnPhase) : Prop :=
  ∃ site after, site.epoch = decoding.input.stop.epoch ∧
    Fallible.result (ObservationDecoder.decodeReturn read decoding.seen decoding.input.stop
      decoding.input.bufferLimit site request) decoding.input.memory = (.ok returned, after)

end Decoding

namespace ObservationDecoder

variable {read : ReadMemory ρ} {decoder : ObservationDecoder} {stop : StopRecord}
  {bufferLimit cr3 : Nat} {site : PhaseSite} {memory after : ρ}

theorem decodeEntry_spec {candidate : PendingEntryCapture}
    (h : Fallible.result (decodeEntry read decoder stop bufferLimit cr3 site) memory =
      (.ok candidate, after)) :
    candidate.entry.site = site ∧ candidate.entry.rawArguments.rcx = candidate.request := by
  unfold decodeEntry at h
  obtain ⟨rsp, m1, -, h⟩ := Fallible.bind_ok h
  obtain ⟨rcx, m2, -, h⟩ := Fallible.bind_ok h
  obtain ⟨buffers, m3, -, h⟩ := Fallible.bind_ok h
  obtain ⟨caller, m4, -, h⟩ := Fallible.bind_ok h
  obtain ⟨rdx, m5, -, h⟩ := Fallible.bind_ok h
  obtain ⟨r8, m6, -, h⟩ := Fallible.bind_ok h
  obtain ⟨r9, m7, -, h⟩ := Fallible.bind_ok h
  cases h
  exact ⟨rfl, rfl⟩

theorem captureBuffer_address {name : String} {address size limit : Nat}
    {capture : BufferCapture}
    (h : Fallible.result (captureBuffer read name address size limit) memory =
      (.ok capture, after)) : capture.address = address := by
  unfold captureBuffer at h
  obtain ⟨-, h⟩ := Fallible.guard_ok h
  obtain ⟨-, h⟩ := Fallible.guard_ok h
  obtain ⟨-, h⟩ := Fallible.guard_ok h
  obtain ⟨bytes, m1, -, h⟩ := Fallible.bind_ok h
  cases h
  rfl

theorem captureRegion_address {request : Nat} {before : Bool} {point : CapturePoint}
    {region : Region} {capture : BufferCapture}
    (h : Fallible.result (captureRegion read decoder request before bufferLimit point region)
      memory = (.ok capture, after)) : capture.address = request + region.offset := by
  unfold captureRegion at h
  cases point with
  | entry =>
    obtain ⟨-, h⟩ := Fallible.guard_ok h
    obtain ⟨-, h⟩ := Fallible.guard_ok h
    exact captureBuffer_address h
  | dispatch =>
    obtain ⟨-, h⟩ := Fallible.guard_ok h
    obtain ⟨-, h⟩ := Fallible.guard_ok h
    exact captureBuffer_address h

theorem decodeReturn_spec {request : Nat} {returned : ReturnPhase}
    (h : Fallible.result (decodeReturn read decoder stop bufferLimit site request) memory =
      (.ok returned, after)) :
    returned.site = site ∧
      List.Forall₂ (fun region capture => capture.address = request + region.offset)
        (decoder.manifest.regions false) returned.buffersAfter := by
  unfold decodeReturn at h
  obtain ⟨buffers, m1, hbuffers, h⟩ := Fallible.bind_ok h
  obtain ⟨rax, m2, -, h⟩ := Fallible.bind_ok h
  cases h
  refine ⟨rfl, ?_⟩
  apply Fallible.mapM_ok _ hbuffers
  intro region state capture last hcapture
  exact captureRegion_address hcapture

theorem readService_lt {request service : Nat}
    (h : Fallible.result (readService read decoder request) memory = (.ok service, after)) :
    service < 2 ^ 16 := by
  unfold readService at h
  split at h
  · cases h
  split at h
  · cases h
  obtain ⟨bytes, m1, -, h⟩ := Fallible.bind_ok h
  obtain ⟨value, m2, -, h⟩ := Fallible.bind_ok h
  split at h
  · cases h
  cases h
  omega

/-- A dispatch takes its entry out of the queue; only a selected one joins the stack. -/
theorem decodeDispatch_spec {outcome : DecodedObservation × ObservationDecoder}
    (h : Fallible.result (decodeDispatch read decoder stop bufferLimit cr3 site) memory =
      (.ok outcome, after)) :
    ∃ service dispatch matched rest, dispatch.site = site ∧
      takeEntry decoder.entryCaptures dispatch.request = (matched, rest) ∧
      ((service = decoder.manifest.service.number ∧ service < 2 ^ 16 ∧
          (∀ candidate, matched = some candidate → dispatch.buffersBefore = candidate.buffers) ∧
          outcome =
            ({ phase := .dispatch, selected := true
               event := some (.dispatch cr3 service dispatch
                 (matched.map fun candidate => (candidate.cr3, candidate.entry))) },
              { decoder with
                entryCaptures := rest
                selectedRequests := dispatch.request :: decoder.selectedRequests })) ∨
        (dispatch.fields = [] ∧
          outcome =
            ({ phase := .dispatch, selected := false
               event := some (.dispatch cr3 service dispatch none) },
              { decoder with entryCaptures := rest }))) := by
  unfold decodeDispatch at h
  obtain ⟨request, m1, -, h⟩ := Fallible.bind_ok h
  dsimp only at h
  split at h
  · cases h
  obtain ⟨service, m2, hservice, h⟩ := Fallible.bind_ok h
  rcases htake : takeEntry decoder.entryCaptures request with ⟨matched, rest⟩
  rw [htake] at h
  dsimp only at h
  split at h
  · rename_i hnumber
    obtain ⟨layout, m3, -, h⟩ := Fallible.bind_ok h
    obtain ⟨fields, m4, -, h⟩ := Fallible.bind_ok h
    have hshort := readService_lt hservice
    cases matched with
    | some candidate =>
      cases h
      refine ⟨service, _, some candidate, rest, rfl, htake, .inl ⟨hnumber, hshort, ?_, rfl⟩⟩
      rintro _ ⟨⟩
      rfl
    | none =>
      obtain ⟨buffers, m5, -, h⟩ := Fallible.bind_ok h
      cases h
      exact ⟨service, _, none, rest, rfl, htake, .inl ⟨hnumber, hshort, nofun, rfl⟩⟩
  · cases h
    exact ⟨service, _, matched, rest, rfl, htake, .inr ⟨rfl, rfl⟩⟩

end ObservationDecoder

/-- Everything a decoded stop can be. -/
inductive Decodes (read : ReadMemory ρ) (decoding : Decoding ρ) :
    DecodedObservation × ObservationDecoder → Prop
  | entry (candidate : PendingEntryCapture) (h : decoding.IsEntry read candidate) :
    Decodes read decoding
      ({ phase := .entry, selected := false, event := none },
        { decoding.seen with
          entryCaptures :=
            ObservationDecoder.queueEntry decoding.decoder.entryCaptures candidate })
  | selected (cr3 service : Nat) (dispatch : DispatchPhase) (matched : Option PendingEntryCapture)
      (rest : List PendingEntryCapture) (hsite : dispatch.site.epoch = decoding.input.stop.epoch)
      (htake : ObservationDecoder.takeEntry decoding.decoder.entryCaptures dispatch.request =
        (matched, rest))
      (hservice : service = decoding.decoder.manifest.service.number) (hshort : service < 2 ^ 16)
      (hbuffers : ∀ candidate, matched = some candidate →
        dispatch.buffersBefore = candidate.buffers) :
    Decodes read decoding
      ({ phase := .dispatch, selected := true
         event := some (.dispatch cr3 service dispatch
           (matched.map fun candidate => (candidate.cr3, candidate.entry))) },
        { decoding.seen with
          entryCaptures := rest
          selectedRequests := dispatch.request :: decoding.decoder.selectedRequests })
  | foreign (cr3 service : Nat) (dispatch : DispatchPhase)
      (hsite : dispatch.site.epoch = decoding.input.stop.epoch) (hfields : dispatch.fields = []) :
    Decodes read decoding
      ({ phase := .dispatch, selected := false
         event := some (.dispatch cr3 service dispatch none) },
        { decoding.seen with
          entryCaptures := (ObservationDecoder.takeEntry decoding.decoder.entryCaptures
            dispatch.request).2 })
  | idle (h : decoding.decoder.selectedRequests = []) :
    Decodes read decoding
      ({ phase := .returned, selected := false, event := none }, decoding.seen)
  | returned (cr3 request : Nat) (rest : List Nat) (phase : ReturnPhase)
      (hstack : decoding.decoder.selectedRequests = request :: rest)
      (h : decoding.IsReturn read request phase) :
    Decodes read decoding
      ({ phase := .returned, selected := true, event := some (.returned cr3 phase) },
        { decoding.seen with selectedRequests := rest })

theorem identify_fresh {decoder : ObservationDecoder} {stop : StopRecord} {site : Site}
    (h : decoder.identify stop = .ok site) : stop.epoch ∉ decoder.seenEpochs := by
  unfold ObservationDecoder.identify at h
  intro hseen
  simp only [hseen, if_true] at h
  split at h <;> cases h

theorem decode_decodes {read : ReadMemory ρ} {decoding : Decoding ρ}
    {outcome : DecodedObservation × ObservationDecoder}
    (h : decoding.result read = .ok outcome) :
    decoding.input.stop.epoch ∉ decoding.decoder.seenEpochs ∧ Decodes read decoding outcome := by
  have hresult : ∃ after, Fallible.result (ObservationDecoder.decode read decoding.decoder
      decoding.input.stop decoding.input.clock decoding.input.bufferLimit)
      decoding.input.memory = (.ok outcome, after) := ⟨_, Prod.ext h rfl⟩
  obtain ⟨after, hresult⟩ := hresult
  unfold ObservationDecoder.decode at hresult
  obtain ⟨site, m1, hidentify, hresult⟩ := Fallible.bind_ok hresult
  obtain ⟨hsite, rfl⟩ := Fallible.lift_ok hidentify
  dsimp only at hresult
  obtain ⟨cr3, m2, hregister, hresult⟩ := Fallible.bind_ok hresult
  obtain ⟨-, rfl⟩ := Fallible.lift_ok hregister
  refine ⟨identify_fresh hsite, ?_⟩
  split at hresult
  · obtain ⟨candidate, m3, hcandidate, hresult⟩ := Fallible.bind_ok hresult
    cases hresult
    exact .entry candidate ⟨cr3, _, _, rfl, hcandidate⟩
  · obtain ⟨service, dispatch, matched, rest, hphase, htake, hkind⟩ :=
      ObservationDecoder.decodeDispatch_spec hresult
    have hepoch : dispatch.site.epoch = decoding.input.stop.epoch := by rw [hphase]; rfl
    rcases hkind with ⟨hservice, hshort, hbuffers, rfl⟩ | ⟨hfields, rfl⟩
    · exact .selected cr3 service dispatch matched rest hepoch htake hservice hshort hbuffers
    · have hrest : rest = (ObservationDecoder.takeEntry decoding.decoder.entryCaptures
          dispatch.request).2 := (congrArg Prod.snd htake).symm
      rw [hrest]
      exact .foreign cr3 service dispatch hepoch hfields
  · split at hresult
    · rename_i hstack
      cases hresult
      exact .idle hstack
    · rename_i request rest hstack
      obtain ⟨phase, m3, hphase, hresult⟩ := Fallible.bind_ok hresult
      cases hresult
      exact .returned cr3 request rest phase hstack ⟨_, _, rfl, hphase⟩
  · cases hresult

/-- The phases of one call, as far as they were observed. -/
structure Call where
  entry : Option EntryObservation
  dispatch : Option DispatchPhase
  returned : Option ReturnPhase

def Call.epochs (call : Call) : List StopEpoch :=
  (call.entry.map fun phase => phase.site.epoch).toList ++
    (call.dispatch.map fun phase => phase.site.epoch).toList ++
    (call.returned.map fun phase => phase.site.epoch).toList

def PendingCall.call (pending : PendingCall) : Call := ⟨pending.entry, pending.dispatch, none⟩

def PendingCall.calls (pending : PendingCall) : List Call :=
  if pending.dispatch.isSome then [pending.call] else []

def EntryPhase.observation (phase : EntryPhase) : EntryObservation :=
  ⟨phase.site, phase.caller, phase.rawArguments, phase.provenance⟩

def ServiceCallRecord.call (record : ServiceCallRecord) : Call :=
  ⟨record.entry.map EntryPhase.observation, record.dispatch, record.returned⟩

namespace Recorder

variable {recorder : Recorder} {now : Option HostQpcSample}

theorem new_empty {traceId : String} {label : Option String} {manifest : ServiceManifest}
    {target : SkControl.TargetIdentity} {imageBase : Nat} {limits : TraceLimits}
    (h : new traceId label manifest target imageBase limits = .ok recorder) :
    recorder.records = [] ∧ recorder.pending = none := by
  unfold new at h
  split at h
  · cases h
  split at h
  · cases h
  split at h
  · cases h
  cases h
  exact ⟨rfl, rfl⟩

def recordCalls (recorder : Recorder) : List Call := recorder.records.map ServiceCallRecord.call

def calls (recorder : Recorder) : List Call :=
  recorder.recordCalls ++ recorder.pending.elim [] PendingCall.calls

def Idle (recorder : Recorder) : Prop := recorder.isSealed = true → recorder.pending = none

@[simp] theorem record_call (pending : PendingCall) (returned : Option ReturnPhase)
    (reason : Option IncompleteReason) :
    (recorder.record pending returned reason).call =
      ⟨pending.entry, pending.dispatch, returned⟩ := by
  unfold record ServiceCallRecord.call
  cases pending.entry with
  | none => rfl
  | some entry => rfl

theorem calls_of_none (h : recorder.pending = none) : recorder.calls = recorder.recordCalls := by
  simp [calls, h]

theorem calls_of_dispatched {pending : PendingCall} {dispatch : DispatchPhase}
    (h : recorder.pending = some pending) (hdispatch : pending.dispatch = some dispatch) :
    recorder.calls = recorder.recordCalls ++ [⟨pending.entry, some dispatch, none⟩] := by
  simp [calls, h, PendingCall.calls, PendingCall.call, hdispatch]

theorem recordCalls_sublist (recorder : Recorder) :
    recorder.recordCalls.Sublist recorder.calls := List.sublist_append_left _ _

theorem taken_calls (recorder : Recorder) : recorder.taken.calls = recorder.recordCalls :=
  calls_of_none rfl

theorem pushRecord_calls {record : ServiceCallRecord} (h : recorder.pending = none) :
    (recorder.pushRecord now record).1.calls.Sublist (recorder.recordCalls ++ [record.call]) := by
  rw [calls_of_none ((pushRecord_pending recorder now record).trans h)]
  unfold recordCalls
  rcases pushRecord_records recorder now record with heq | heq
  · rw [heq]
    exact List.sublist_append_left _ _
  · rw [heq, List.map_append]
    exact List.Sublist.refl _

theorem sealPending_calls {pending : PendingCall} {reason : IncompleteReason}
    (h : recorder.pending = some pending) (hdispatch : pending.dispatch.isSome = true) :
    (recorder.taken.sealPending now pending none reason).1.calls.Sublist recorder.calls := by
  obtain ⟨dispatch, hdispatch⟩ := Option.isSome_iff_exists.mp hdispatch
  have hpushed := @pushRecord_calls recorder.taken now
    (recorder.taken.record pending none (some reason)) rfl
  rw [record_call, hdispatch] at hpushed
  rw [calls_of_dispatched h hdispatch]
  exact hpushed

theorem await_spec (pending : PendingCall) (h : recorder.pending = none) :
    (await pending recorder).1.calls.Sublist (recorder.calls ++ pending.calls) ∧
      (await pending recorder).1.Idle ∧
      ∀ next, (await pending recorder).1.pending = some next → next = pending := by
  unfold await
  split
  · exact ⟨List.sublist_append_left _ _, fun _ => h, fun next hnext => nomatch h.symm.trans hnext⟩
  · rename_i hopen
    refine ⟨?_, fun hsealed => absurd hsealed hopen, fun next hnext => (Option.some.inj hnext).symm⟩
    rw [calls_of_none h]
    exact List.Sublist.refl _

theorem sealPending_await {pending next : PendingCall} {reason : IncompleteReason}
    (h : recorder.pending = some pending) (hdispatch : pending.dispatch.isSome = true) :
    let after := andThen (recorder.taken.sealPending now pending none reason) (await next)
    after.1.calls.Sublist (recorder.calls ++ next.calls) ∧
      (after.2 = .ok () → after.1.Idle ∧
        ∀ waiting, after.1.pending = some waiting → waiting = next) := by
  intro after
  have hcalls : (recorder.taken.sealPending now pending none reason).1.calls.Sublist
      recorder.calls := sealPending_calls h hdispatch
  have hnone : (recorder.taken.sealPending now pending none reason).1.pending = none :=
    pushRecord_pending _ _ _
  unfold after andThen
  split
  · exact ⟨hcalls.trans (List.sublist_append_left _ _), nofun⟩
  · obtain ⟨hawait, hidle, hnext⟩ := await_spec next hnone
    exact ⟨hawait.trans (hcalls.append_right _), fun _ => ⟨hidle, hnext⟩⟩

def noted (recorder : Recorder) (epoch : StopEpoch) : Recorder :=
  { recorder with seenEpochs := epoch :: recorder.seenEpochs }

@[simp] theorem noted_calls (epoch : StopEpoch) : (recorder.noted epoch).calls = recorder.calls :=
  rfl

@[simp] theorem noted_pending (epoch : StopEpoch) :
    (recorder.noted epoch).pending = recorder.pending := rfl

@[simp] theorem noted_manifest (epoch : StopEpoch) :
    (recorder.noted epoch).manifest = recorder.manifest := rfl

@[simp] theorem noted_recordCalls (epoch : StopEpoch) :
    (recorder.noted epoch).recordCalls = recorder.recordCalls := rfl

theorem Idle.noted (h : recorder.Idle) (epoch : StopEpoch) : (recorder.noted epoch).Idle := h

theorem validateObservation_cases (recorder : Recorder) (cr3 : Nat) (site : PhaseSite)
    (phase : String) :
    (∃ text, recorder.validateObservation cr3 site phase = (recorder, .error text)) ∨
      recorder.validateObservation cr3 site phase = (recorder.noted site.epoch, .ok ()) := by
  unfold validateObservation
  split
  · exact .inl ⟨_, rfl⟩
  split
  · exact .inl ⟨_, rfl⟩
  split
  · exact .inl ⟨_, rfl⟩
  split
  · exact .inl ⟨_, rfl⟩
  exact .inr rfl

theorem andThen_validate_cases (cr3 : Nat) (site : PhaseSite) (phase : String)
    (next : Recorder → Recorder × Except String Unit) :
    (∃ text, andThen (recorder.validateObservation cr3 site phase) next =
        (recorder, .error text)) ∨
      andThen (recorder.validateObservation cr3 site phase) next =
        next (recorder.noted site.epoch) := by
  rcases validateObservation_cases recorder cr3 site phase with ⟨text, heq⟩ | heq
  · rw [heq]
    exact .inl ⟨text, rfl⟩
  · rw [heq]
    exact .inr rfl

theorem observeEntry_calls {cr3 : Nat} {entry : EntryObservation} (hidle : recorder.Idle) :
    let after := recorder.observeEntry now cr3 entry
    after.1.calls.Sublist recorder.calls ∧
      (after.2 = .ok () → after.1.Idle ∧
        ∀ pending, after.1.pending = some pending →
          pending = { entry := some entry, dispatch := none, cr3 := cr3 }) := by
  intro after
  unfold after observeEntry
  rcases andThen_validate_cases cr3 entry.site "entry" _ with ⟨text, heq⟩ | heq
  · rw [heq]
    exact ⟨List.Sublist.refl _, nofun⟩
  have hkept := hidle.noted entry.site.epoch
  have hcalls := @noted_calls recorder entry.site.epoch
  rw [heq]
  generalize recorder.noted entry.site.epoch = seen at hkept hcalls
  rw [← hcalls]
  dsimp only
  split
  · rename_i hsealed
    refine ⟨List.Sublist.refl _, fun _ => ⟨hkept, fun pending hpending => ?_⟩⟩
    rw [hkept hsealed] at hpending
    cases hpending
  split
  · rename_i pending hpending
    obtain ⟨hsome, hdispatch⟩ := Option.filter_eq_some_iff.mp hpending
    simpa [PendingCall.calls] using @sealPending_await seen now pending
      { entry := some entry, dispatch := none, cr3 := cr3 } .nestedEntry hsome hdispatch
  · obtain ⟨hawait, hafter, hnext⟩ := @await_spec seen.taken
      { entry := some entry, dispatch := none, cr3 := cr3 } rfl
    refine ⟨?_, fun _ => ⟨hafter, hnext⟩⟩
    rw [taken_calls] at hawait
    simp only [PendingCall.calls, Option.isSome_none, Bool.false_eq_true, if_false,
      List.append_nil] at hawait
    exact hawait.trans (recordCalls_sublist seen)

/-- The entry a dispatch may join is the one that waits without a dispatch of its own. -/
def Joins (recorder : Recorder) (entry : Option EntryObservation) : Prop :=
  entry = none ∨
    ∃ pending, recorder.pending = some pending ∧ pending.dispatch = none ∧ entry = pending.entry

/-- A dispatch that is not of the selected service retains nothing new; a selected one
starts a call of its own or joins the entry that waits for it. -/
theorem observeDispatch_calls {cr3 service : Nat} {dispatch : DispatchPhase}
    (hidle : recorder.Idle) :
    let after := recorder.observeDispatch now cr3 service dispatch
    (after.1.calls.Sublist recorder.calls ∨
      (dispatch.fields ≠ [] ∧ ∃ entry, recorder.Joins entry ∧
        after.1.calls.Sublist (recorder.calls ++ [⟨entry, some dispatch, none⟩]))) ∧
    (after.2 = .ok () → after.1.Idle ∧
      (∀ pending, after.1.pending = some pending → pending.dispatch = some dispatch) ∧
      (service ≠ recorder.manifest.selected ∨ dispatch.fields = [] → after.1.pending = none)) := by
  intro after
  unfold after observeDispatch
  split
  · exact ⟨.inl (List.Sublist.refl _), nofun⟩
  rename_i hcheck
  have hfields : service = recorder.manifest.selected → dispatch.fields ≠ [] := by
    intro hservice hempty
    simp [checkServiceField, hservice, hempty] at hcheck
  rcases andThen_validate_cases cr3 dispatch.site "dispatch" _ with ⟨text, heq⟩ | heq
  · rw [heq]
    exact ⟨.inl (List.Sublist.refl _), nofun⟩
  have hkept := hidle.noted dispatch.site.epoch
  have hcalls := @noted_calls recorder dispatch.site.epoch
  have hmanifest := @noted_manifest recorder dispatch.site.epoch
  have hjoins : ∀ entry, (recorder.noted dispatch.site.epoch).Joins entry →
      recorder.Joins entry := fun _ h => h
  rw [heq]
  generalize recorder.noted dispatch.site.epoch = seen at hkept hjoins hcalls hmanifest
  rw [← hmanifest] at hfields
  rw [← hcalls, ← hmanifest]
  dsimp only
  split
  · rename_i hsealed
    refine ⟨.inl (List.Sublist.refl _), fun _ => ⟨hkept, ?_, fun _ => hkept hsealed⟩⟩
    intro pending hsome
    cases (hkept hsealed).symm.trans hsome
  rename_i hopen
  split
  · refine ⟨.inl ?_, fun _ => ⟨fun _ => rfl, nofun, fun _ => rfl⟩⟩
    rw [taken_calls]
    exact recordCalls_sublist seen
  rename_i hservice
  rw [not_not] at hservice
  have hother : service ≠ seen.manifest.selected ∨ dispatch.fields = [] → False := by
    rintro (hne | hempty)
    · exact hne hservice
    · exact hfields hservice hempty
  split
  · rename_i waiting hwaiting
    split
    · rename_i hfree
      replace hfree : waiting.dispatch = none := by simpa using hfree
      have hseen : seen.calls = seen.recordCalls := by
        simp [calls, hwaiting, PendingCall.calls, hfree]
      split
      · refine ⟨.inr ⟨hfields hservice, none, .inl rfl, ?_⟩,
          fun _ => ⟨fun hsealed => absurd hsealed hopen, ?_, fun h => (hother h).elim⟩⟩
        · rw [hseen]
          exact List.Sublist.refl _
        · rintro _ ⟨⟩
          rfl
      · refine ⟨.inr ⟨hfields hservice, waiting.entry, hjoins _ (.inr ⟨waiting, hwaiting, hfree, rfl⟩),
          ?_⟩, fun _ => ⟨fun hsealed => absurd hsealed hopen, ?_, fun h => (hother h).elim⟩⟩
        · rw [hseen]
          exact List.Sublist.refl _
        · rintro _ ⟨⟩
          rfl
    · rename_i htaken
      replace htaken : waiting.dispatch.isSome = true := by
        cases hwaits : waiting.dispatch with
        | none => simp [hwaits] at htaken
        | some _ => rfl
      obtain ⟨hsub, hafter⟩ := @sealPending_await seen now waiting
        { entry := none, dispatch := some dispatch, cr3 := cr3 } .repeatedDispatch hwaiting htaken
      refine ⟨.inr ⟨hfields hservice, none, .inl rfl, hsub⟩,
        fun hok => ⟨(hafter hok).1, ?_, fun h => (hother h).elim⟩⟩
      intro pending hsome
      rw [(hafter hok).2 pending hsome]
  · rename_i hnone
    refine ⟨.inr ⟨hfields hservice, none, .inl rfl, ?_⟩,
      fun _ => ⟨fun hsealed => absurd hsealed hopen, ?_, fun h => (hother h).elim⟩⟩
    · rw [calls_of_none hnone]
      exact List.Sublist.refl _
    · rintro _ ⟨⟩
      rfl

theorem observeReturn_calls {cr3 : Nat} {returned : ReturnPhase} (hidle : recorder.Idle) :
    let after := recorder.observeReturn now cr3 returned
    (after.1.calls.Sublist recorder.calls ∨
      ∃ pending dispatch, recorder.pending = some pending ∧ pending.dispatch = some dispatch ∧
        after.1.calls.Sublist (recorder.recordCalls ++
          [⟨pending.entry, some dispatch, some returned⟩])) ∧
    (after.2 = .ok () → after.1.Idle ∧ after.1.pending = none) := by
  intro after
  unfold after observeReturn
  rcases andThen_validate_cases cr3 returned.site "return" _ with ⟨text, heq⟩ | heq
  · rw [heq]
    exact ⟨.inl (List.Sublist.refl _), nofun⟩
  have hkept := hidle.noted returned.site.epoch
  have hcalls := @noted_calls recorder returned.site.epoch
  have hrecords := @noted_recordCalls recorder returned.site.epoch
  have hpending := @noted_pending recorder returned.site.epoch
  rw [heq]
  generalize recorder.noted returned.site.epoch = seen at hkept hcalls hrecords hpending
  rw [← hcalls, ← hrecords, ← hpending]
  dsimp only
  split
  · rename_i hsealed
    exact ⟨.inl (List.Sublist.refl _), fun _ => ⟨hkept, hkept hsealed⟩⟩
  split
  · rename_i waiting hwaiting
    obtain ⟨hsome, hdispatch⟩ := Option.filter_eq_some_iff.mp hwaiting
    obtain ⟨dispatch, hdispatch⟩ := Option.isSome_iff_exists.mp hdispatch
    split
    · exact ⟨.inl (List.Sublist.refl _), nofun⟩
    · refine ⟨.inr ⟨waiting, dispatch, hsome, hdispatch, ?_⟩, fun _ => ⟨fun _ => ?_, ?_⟩⟩
      · have hpushed := @pushRecord_calls seen.taken now (seen.taken.record waiting (some returned)
          (if waiting.entry.isSome then none else some .missingEntry)) rfl
        rw [record_call, hdispatch] at hpushed
        exact hpushed
      · exact pushRecord_pending _ _ _
      · exact pushRecord_pending _ _ _
  · refine ⟨.inl ?_, fun _ => ⟨fun _ => rfl, rfl⟩⟩
    rw [taken_calls]
    exact recordCalls_sublist seen

theorem finish_calls (recorder : Recorder) (now : Option HostQpcSample) :
    (recorder.finish now).1.recordCalls.Sublist recorder.calls := by
  unfold finish
  split
  · exact recordCalls_sublist recorder
  split
  · rename_i pending hpending
    obtain ⟨hsome, hdispatch⟩ := Option.filter_eq_some_iff.mp hpending
    have hsealed := @sealPending_calls recorder now pending .stopped hsome hdispatch
    refine List.Sublist.trans ?_ ((recordCalls_sublist _).trans hsealed)
    unfold andThen
    split
    · exact List.Sublist.refl _
    · simp [recordCalls]
  · simp [recordCalls, taken, calls]

end Recorder

end WindbgMcp.SkServiceTrace
