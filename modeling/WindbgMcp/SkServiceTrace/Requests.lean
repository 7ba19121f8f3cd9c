import Mathlib.Data.List.Flatten
import WindbgMcp.SkServiceTrace.Pairing

/-! A whole run of the decoder into one recorder.  The history of decoded stops says where
each phase of a record came from, and which stops a record has used up. -/
namespace WindbgMcp.SkServiceTrace
open Library
open SkControl (StopEpoch)
open Structured (HostQpcSample)

variable {ρ : Type}

/-- Decodes the stops in order and applies each to the recorder, up to the first error.
The history holds the stops that were decoded. -/
def drive (read : ReadMemory ρ) (decoder : ObservationDecoder) (recorder : Recorder) :
    List (StopInput ρ) → List (Decoding ρ) × Recorder
  | [] => ([], recorder)
  | input :: rest =>
    match (Decoding.mk decoder input).result read with
    | .error _ => ([], recorder)
    | .ok (decoded, next) =>
      match decoded.apply recorder input.now with
      | (after, .error _) => ([⟨decoder, input⟩], after)
      | (after, .ok _) =>
        let (history, last) := drive read next after rest
        (⟨decoder, input⟩ :: history, last)

def Decoding.epoch (decoding : Decoding ρ) : StopEpoch := decoding.input.stop.epoch

def lender (history : List (Decoding ρ)) (dispatch : DispatchPhase) : Option StopEpoch :=
  ((history.find? fun decoding => decoding.epoch = dispatch.site.epoch).bind fun decoding =>
    (ObservationDecoder.takeEntry decoding.decoder.entryCaptures dispatch.request).1).map
      fun candidate => candidate.entry.site.epoch

/-- The stops that contributed to a call: those of its phases, and the entry that lent its
buffers to the dispatch without being a phase of the call, its CR3 being another. -/
def Call.stops (history : List (Decoding ρ)) (call : Call) : List StopEpoch :=
  call.epochs ++
    if call.entry.isSome then [] else (call.dispatch.bind (lender history)).toList

/-- The entry was decoded before the dispatch at `place`, for the same request, and the
buffers the dispatch carries were captured then. -/
def EntryOf (read : ReadMemory ρ) (history : List (Decoding ρ)) (place : Nat)
    (dispatch : DispatchPhase) (entry : EntryObservation) : Prop :=
  entry.rawArguments.rcx = dispatch.request ∧
    ∃ earlier decoding candidate, earlier < place ∧ history[earlier]? = some decoding ∧
      decoding.IsEntry read candidate ∧ candidate.entry = entry ∧
      candidate.buffers = dispatch.buffersBefore

/-- The return was decoded after the dispatch at `place`, and its buffers were captured at
addresses of the request of that dispatch. -/
def ReturnOf (read : ReadMemory ρ) (history : List (Decoding ρ)) (place : Nat)
    (dispatch : DispatchPhase) (returned : ReturnPhase) : Prop :=
  ∃ later decoding, place < later ∧ history[later]? = some decoding ∧
    decoding.IsReturn read dispatch.request returned ∧
    List.Forall₂ (fun region capture => capture.address = dispatch.request + region.offset)
      (decoding.decoder.manifest.regions false) returned.buffersAfter

def OneRequest (read : ReadMemory ρ) (history : List (Decoding ρ)) (call : Call) : Prop :=
  ∀ dispatch, call.dispatch = some dispatch →
    ∃ place decoding, history[place]? = some decoding ∧ decoding.IsDispatch read dispatch ∧
      (∀ entry, call.entry = some entry → EntryOf read history place dispatch entry) ∧
      ∀ returned, call.returned = some returned → ReturnOf read history place dispatch returned

section Later
variable {read : ReadMemory ρ} {history : List (Decoding ρ)} {next : Decoding ρ}

theorem getElem?_later {place : Nat} {decoding : Decoding ρ}
    (h : history[place]? = some decoding) :
    (history ++ [next])[place]? = some decoding ∧ place < history.length := by
  have hplace := (List.getElem?_eq_some_iff.mp h).1
  exact ⟨by rw [List.getElem?_append_left hplace, h], hplace⟩

theorem EntryOf.later {place : Nat} {dispatch : DispatchPhase} {entry : EntryObservation}
    (h : EntryOf read history place dispatch entry) :
    EntryOf read (history ++ [next]) place dispatch entry := by
  obtain ⟨hrcx, earlier, decoding, candidate, hbefore, hdecoding, hentry⟩ := h
  exact ⟨hrcx, earlier, decoding, candidate, hbefore, (getElem?_later hdecoding).1, hentry⟩

theorem ReturnOf.later {place : Nat} {dispatch : DispatchPhase} {returned : ReturnPhase}
    (h : ReturnOf read history place dispatch returned) :
    ReturnOf read (history ++ [next]) place dispatch returned := by
  obtain ⟨later, decoding, hafter, hdecoding, hreturn⟩ := h
  exact ⟨later, decoding, hafter, (getElem?_later hdecoding).1, hreturn⟩

theorem OneRequest.later {call : Call} (h : OneRequest read history call) :
    OneRequest read (history ++ [next]) call := by
  intro dispatch hdispatch
  obtain ⟨place, decoding, hdecoding, hphase, hentry, hreturn⟩ := h dispatch hdispatch
  refine ⟨place, decoding, (getElem?_later hdecoding).1, hphase, ?_, ?_⟩
  · exact fun entry hsome => (hentry entry hsome).later
  · exact fun returned hsome => (hreturn returned hsome).later

theorem lender_later {dispatch : DispatchPhase}
    (h : dispatch.site.epoch ∈ history.map Decoding.epoch) :
    lender (history ++ [next]) dispatch = lender history dispatch := by
  obtain ⟨decoding, hmem, hepoch⟩ := List.mem_map.mp h
  have hfound : (history.find? fun decoding => decoding.epoch = dispatch.site.epoch).isSome := by
    rw [List.find?_isSome]
    exact ⟨decoding, hmem, by simpa using hepoch⟩
  unfold lender
  rw [List.find?_append, Option.or_of_isSome hfound]

theorem lender_now {dispatch : DispatchPhase} (hsite : dispatch.site.epoch = next.epoch)
    (h : next.epoch ∉ history.map Decoding.epoch) :
    lender (history ++ [next]) dispatch =
      (ObservationDecoder.takeEntry next.decoder.entryCaptures dispatch.request).1.map
        fun candidate => candidate.entry.site.epoch := by
  have hnone : (history.find? fun decoding => decoding.epoch = dispatch.site.epoch) = none := by
    rw [List.find?_eq_none]
    intro decoding hmem hepoch
    apply h
    rw [← hsite, ← of_decide_eq_true hepoch]
    exact List.mem_map_of_mem hmem
  unfold lender
  rw [List.find?_append, hnone]
  simp [hsite]

theorem stops_later {call : Call} (h : ∀ epoch ∈ call.epochs, epoch ∈ history.map Decoding.epoch) :
    call.stops (history ++ [next]) = call.stops history := by
  unfold Call.stops
  cases hdispatch : call.dispatch with
  | none => rfl
  | some dispatch =>
    have hmem : dispatch.site.epoch ∈ call.epochs := by simp [Call.epochs, hdispatch]
    rw [Option.bind_some, Option.bind_some, lender_later (h _ hmem)]

end Later

/-- The calls are each of one request; their stops and those in `spare` are different
stops of the history. -/
structure Held (read : ReadMemory ρ) (history : List (Decoding ρ)) (calls : List Call)
    (spare : List StopEpoch) : Prop where
  paired : ∀ call ∈ calls, OneRequest read history call
  apart : (calls.flatMap (Call.stops history) ++ spare).Nodup
  known : ∀ epoch ∈ calls.flatMap (Call.stops history) ++ spare,
    epoch ∈ history.map Decoding.epoch

namespace Held

variable {read : ReadMemory ρ} {history : List (Decoding ρ)} {next : Decoding ρ}
  {calls : List Call} {spare : List StopEpoch}

theorem sublist {fewer : List Call} {less : List StopEpoch} (h : Held read history calls spare)
    (hcalls : fewer.Sublist calls) (hspare : less.Sublist spare) :
    Held read history fewer less := by
  have hstops : (fewer.flatMap (Call.stops history) ++ less).Sublist
      (calls.flatMap (Call.stops history) ++ spare) :=
    (hcalls.flatMap _).append hspare
  exact ⟨fun call hcall => h.paired call (hcalls.subset hcall), h.apart.sublist hstops,
    fun epoch hepoch => h.known epoch (hstops.subset hepoch)⟩

theorem stops_eq (h : Held read history calls spare) :
    calls.flatMap (Call.stops (history ++ [next])) = calls.flatMap (Call.stops history) := by
  apply List.flatMap_congr
  intro call hcall
  apply stops_later
  intro epoch hepoch
  apply h.known
  apply List.mem_append_left
  exact List.mem_flatMap.mpr ⟨call, hcall, List.mem_append_left _ hepoch⟩

theorem stop (h : Held read history calls spare) (next : Decoding ρ)
    (hfresh : next.epoch ∉ history.map Decoding.epoch) :
    Held read (history ++ [next]) calls (spare ++ [next.epoch]) := by
  refine ⟨fun call hcall => (h.paired call hcall).later, ?_, ?_⟩
  · rw [h.stops_eq, ← List.append_assoc, List.nodup_append_comm]
    refine List.nodup_cons.mpr ⟨fun hmem => hfresh (h.known _ hmem), h.apart⟩
  · rw [h.stops_eq]
    intro epoch hepoch
    rw [List.map_append, List.mem_append]
    rw [← List.append_assoc, List.mem_append] at hepoch
    exact hepoch.imp_left (h.known epoch)

theorem replace {old : List Call} {call : Call} {rest : List StopEpoch}
    (h : Held read history (calls ++ old) spare) (hcall : OneRequest read history call)
    (hspare : (call.stops history ++ rest).Perm
      (old.flatMap (Call.stops history) ++ spare)) :
    Held read history (calls ++ [call]) rest := by
  have hperm : ((calls ++ [call]).flatMap (Call.stops history) ++ rest).Perm
      ((calls ++ old).flatMap (Call.stops history) ++ spare) := by
    rw [List.flatMap_append, List.flatMap_append, List.append_assoc, List.append_assoc]
    apply List.Perm.append_left
    simpa using hspare
  refine ⟨?_, hperm.nodup_iff.mpr h.apart, fun epoch hepoch => h.known epoch (hperm.subset hepoch)⟩
  intro other hother
  rcases List.mem_append.mp hother with hold | hnew
  · exact h.paired other (List.mem_append_left _ hold)
  · rw [List.mem_singleton.mp hnew]
    exact hcall

end Held

section Queue
open ObservationDecoder

theorem find?_eraseP_perm {α : Type} (wanted : α → Bool) (values : List α) :
    ((values.find? wanted).toList ++ values.eraseP wanted).Perm values := by
  induction values with
  | nil => exact List.Perm.refl _
  | cons value rest ih =>
    cases hvalue : wanted value with
    | true => simp [hvalue]
    | false =>
      rw [List.find?_cons_of_neg (by simp [hvalue]), List.eraseP_cons_of_neg (by simp [hvalue])]
      exact List.perm_middle.trans (ih.cons value)

theorem takeEntry_perm (candidates : List PendingEntryCapture) (request : Nat) :
    ((takeEntry candidates request).1.toList ++ (takeEntry candidates request).2).Perm
      candidates := by
  unfold takeEntry
  have hnewest := find?_eraseP_perm (fun candidate => decide (candidate.request = request))
    candidates.reverse
  exact ((List.reverse_perm _).append_left _).trans (hnewest.trans (List.reverse_perm _))

theorem takeEntry_sublist (candidates : List PendingEntryCapture) (request : Nat) :
    (takeEntry candidates request).2.Sublist candidates := by
  have hnewest : (candidates.reverse.eraseP fun candidate =>
      decide (candidate.request = request)).Sublist candidates.reverse := List.eraseP_sublist
  simpa [takeEntry] using hnewest.reverse

theorem takeEntry_request {candidates : List PendingEntryCapture} {request : Nat}
    {candidate : PendingEntryCapture} (h : (takeEntry candidates request).1 = some candidate) :
    candidate.request = request := by
  have hfound := List.find?_some h
  exact of_decide_eq_true hfound

theorem queueEntry_sublist (candidates : List PendingEntryCapture)
    (candidate : PendingEntryCapture) :
    (queueEntry candidates candidate).Sublist (candidates ++ [candidate]) := by
  unfold queueEntry
  apply List.Sublist.append_right
  split
  · exact (List.drop_sublist 1 _).trans List.eraseP_sublist
  · exact List.eraseP_sublist

end Queue

namespace Recorder

variable {recorder : Recorder} {now : Option HostQpcSample}

theorem observeAll_single (recorder : Recorder) (now : Option HostQpcSample)
    (observation : Observation) :
    recorder.observeAll now [observation] = recorder.observe now observation := by
  unfold observeAll andThen
  rcases recorder.observe now observation with ⟨after, result⟩
  cases result with
  | error text => rfl
  | ok done => rfl

def Dispatched (recorder : Recorder) : Prop :=
  ∀ pending, recorder.pending = some pending → pending.dispatch.isSome = true

theorem Dispatched.joins {entry : Option EntryObservation} (h : recorder.Dispatched)
    (hjoins : recorder.Joins entry) : entry = none := by
  rcases hjoins with hnone | ⟨pending, hpending, hdispatch, -⟩
  · exact hnone
  · have hsome := h pending hpending
    simp [hdispatch] at hsome

/-- A dispatch with the entry the decoder matched it with: one new call at most, and no
entry in it but the matched one. -/
theorem observeMatched_calls {cr3 service : Nat} {dispatch : DispatchPhase}
    {matched : Option (Nat × EntryObservation)} (hidle : recorder.Idle)
    (hwaiting : recorder.Dispatched) :
    let after := recorder.observeAll now
      ((matched.map fun (entryCr3, entry) => Observation.entry entryCr3 entry).toList ++
        [.dispatch cr3 service dispatch])
    (∃ entry, (entry = none ∨ entry = matched.map Prod.snd) ∧
      after.1.calls.Sublist (recorder.calls ++ [⟨entry, some dispatch, none⟩])) ∧
    (after.2 = .ok () → after.1.Idle ∧
      ∀ pending, after.1.pending = some pending → pending.dispatch = some dispatch) := by
  intro after
  cases matched with
  | none =>
    have heq : after = recorder.observeDispatch now cr3 service dispatch :=
      observeAll_single recorder now _
    rw [heq]
    obtain ⟨hcalls, hafter⟩ := @observeDispatch_calls recorder now cr3 service dispatch hidle
    refine ⟨⟨none, .inl rfl, ?_⟩, fun hok => ⟨(hafter hok).1, (hafter hok).2.1⟩⟩
    rcases hcalls with hcalls | ⟨-, entry, hjoins, hcalls⟩
    · exact hcalls.trans (List.sublist_append_left _ _)
    · rw [hwaiting.joins hjoins] at hcalls
      exact hcalls
  | some matched =>
    obtain ⟨entryCr3, entry⟩ := matched
    have heq : after = andThen (recorder.observeEntry now entryCr3 entry)
        fun recorder => recorder.observeAll now [.dispatch cr3 service dispatch] := rfl
    obtain ⟨hentry, hpending⟩ := @observeEntry_calls recorder now entryCr3 entry hidle
    rw [heq]
    unfold andThen
    split
    · exact ⟨⟨none, .inl rfl, hentry.trans (List.sublist_append_left _ _)⟩, nofun⟩
    rename_i hok
    simp only [observeAll_single]
    obtain ⟨hmiddle, hnext⟩ := hpending hok
    generalize (recorder.observeEntry now entryCr3 entry).1 = middle at *
    obtain ⟨hcalls, hafter⟩ := @observeDispatch_calls middle now cr3 service dispatch hmiddle
    refine ⟨?_, fun hok => ⟨(hafter hok).1, (hafter hok).2.1⟩⟩
    rcases hcalls with hcalls | ⟨-, joined, hjoins, hcalls⟩
    · exact ⟨none, .inl rfl, (hcalls.trans hentry).trans (List.sublist_append_left _ _)⟩
    · refine ⟨joined, ?_, hcalls.trans (hentry.append_right _)⟩
      rcases hjoins with hnone | ⟨pending, hsome, -, hjoined⟩
      · exact .inl hnone
      · rw [hjoined, hnext pending hsome]
        exact .inr rfl

end Recorder

def queueEpochs (decoder : ObservationDecoder) : List StopEpoch :=
  decoder.entryCaptures.map fun candidate => candidate.entry.site.epoch

/-- The decoder and the recorder are in step with the history of a run. -/
structure Paired (read : ReadMemory ρ) (history : List (Decoding ρ))
    (decoder : ObservationDecoder) (recorder : Recorder) : Prop where
  seen : ∀ epoch ∈ history.map Decoding.epoch, epoch ∈ decoder.seenEpochs
  distinct : (history.map Decoding.epoch).Nodup
  held : Held read history recorder.calls (queueEpochs decoder)
  queued : ∀ candidate ∈ decoder.entryCaptures,
    ∃ decoding ∈ history, decoding.IsEntry read candidate
  waiting : ∀ pending, recorder.pending = some pending → ∃ dispatch,
    pending.dispatch = some dispatch ∧ decoder.selectedRequests.head? = some dispatch.request
  idle : recorder.Idle

/-- What a decoded stop leaves, whether or not the recorder takes it. -/
structure Stepped (read : ReadMemory ρ) (history : List (Decoding ρ))
    (next : ObservationDecoder) (after : Recorder × Except String Unit) : Prop where
  held : Held read history after.1.calls (queueEpochs next)
  queued : ∀ candidate ∈ next.entryCaptures,
    ∃ decoding ∈ history, decoding.IsEntry read candidate
  waiting : after.2 = .ok () → ∀ pending, after.1.pending = some pending → ∃ dispatch,
    pending.dispatch = some dispatch ∧ next.selectedRequests.head? = some dispatch.request
  idle : after.2 = .ok () → after.1.Idle

namespace Paired

variable {read : ReadMemory ρ} {history : List (Decoding ρ)} {decoder : ObservationDecoder}
  {recorder : Recorder} {input : StopInput ρ}

theorem dispatched (h : Paired read history decoder recorder) : recorder.Dispatched := by
  intro pending hpending
  obtain ⟨dispatch, hdispatch, -⟩ := h.waiting pending hpending
  simp [hdispatch]

theorem queued_later (h : Paired read history decoder recorder) {next : Decoding ρ}
    {candidates : List PendingEntryCapture} (hsub : candidates ⊆ decoder.entryCaptures) :
    ∀ candidate ∈ candidates, ∃ decoding ∈ history ++ [next], decoding.IsEntry read candidate := by
  intro candidate hcandidate
  obtain ⟨decoding, hmem, hentry⟩ := h.queued candidate (hsub hcandidate)
  exact ⟨decoding, List.mem_append_left _ hmem, hentry⟩

theorem entry (h : Paired read history decoder recorder) {candidate : PendingEntryCapture}
    (hfresh : input.stop.epoch ∉ history.map Decoding.epoch)
    (hentry : (Decoding.mk decoder input).IsEntry read candidate) :
    Stepped read (history ++ [⟨decoder, input⟩])
      { (Decoding.mk decoder input).seen with
        entryCaptures := ObservationDecoder.queueEntry decoder.entryCaptures candidate }
      (recorder, .ok ()) where
  held := by
    have hsite : candidate.entry.site.epoch = input.stop.epoch := by
      obtain ⟨cr3, site, after, hepoch, hresult⟩ := hentry
      rw [(ObservationDecoder.decodeEntry_spec hresult).1, hepoch]
    apply (h.held.stop ⟨decoder, input⟩ hfresh).sublist (List.Sublist.refl _)
    have hqueue := (queueEntry_sublist decoder.entryCaptures candidate).map
      fun candidate => candidate.entry.site.epoch
    rw [List.map_append] at hqueue
    simpa [queueEpochs, hsite, Decoding.epoch] using hqueue
  queued := by
    intro other hother
    rcases List.mem_append.mp ((queueEntry_sublist _ _).subset hother) with hold | hnew
    · exact h.queued_later (List.Subset.refl _) other hold
    · rw [List.mem_singleton.mp hnew]
      exact ⟨_, by simp, hentry⟩
  waiting := fun _ => h.waiting
  idle := fun _ => h.idle

theorem ignored (h : Paired read history decoder recorder)
    (hfresh : input.stop.epoch ∉ history.map Decoding.epoch) :
    Stepped read (history ++ [⟨decoder, input⟩]) (Decoding.mk decoder input).seen
      (recorder, .ok ()) where
  held := (h.held.stop ⟨decoder, input⟩ hfresh).sublist (List.Sublist.refl _) (List.sublist_append_left _ _)
  queued := h.queued_later (List.Subset.refl _)
  waiting := fun _ => h.waiting
  idle := fun _ => h.idle

theorem foreign (h : Paired read history decoder recorder) {cr3 service : Nat}
    {dispatch : DispatchPhase} (hfresh : input.stop.epoch ∉ history.map Decoding.epoch)
    (hfields : dispatch.fields = []) :
    Stepped read (history ++ [⟨decoder, input⟩])
      { (Decoding.mk decoder input).seen with
        entryCaptures := (ObservationDecoder.takeEntry decoder.entryCaptures dispatch.request).2 }
      (recorder.observeDispatch input.now cr3 service dispatch) := by
  obtain ⟨hcalls, hafter⟩ :=
    @Recorder.observeDispatch_calls recorder input.now cr3 service dispatch h.idle
  have hrest := takeEntry_sublist decoder.entryCaptures dispatch.request
  refine ⟨?_, h.queued_later hrest.subset, fun hok => ?_, fun hok => (hafter hok).1⟩
  · apply (h.held.stop ⟨decoder, input⟩ hfresh).sublist
    · rcases hcalls with hcalls | ⟨hsome, -⟩
      · exact hcalls
      · exact absurd hfields hsome
    · exact (hrest.map _).trans (List.sublist_append_left _ _)
  · intro pending hpending
    cases ((hafter hok).2.2 (.inr hfields)).symm.trans hpending

/-- The entry that waited for the dispatch came from an earlier stop, of the same request. -/
theorem entryOf (h : Paired read history decoder recorder) {dispatch : DispatchPhase}
    {candidate : PendingEntryCapture}
    (htake : (ObservationDecoder.takeEntry decoder.entryCaptures dispatch.request).1 =
      some candidate)
    (hbuffers : dispatch.buffersBefore = candidate.buffers) :
    EntryOf read (history ++ [⟨decoder, input⟩]) history.length dispatch candidate.entry := by
  have hmem : candidate ∈ decoder.entryCaptures := by
    apply (takeEntry_perm decoder.entryCaptures dispatch.request).subset
    rw [htake]
    simp
  obtain ⟨decoding, hdecoding, hentry⟩ := h.queued candidate hmem
  obtain ⟨place, hplace⟩ := List.mem_iff_getElem?.mp hdecoding
  obtain ⟨hlater, hbefore⟩ := @getElem?_later _ _ ⟨decoder, input⟩ _ _ hplace
  refine ⟨?_, place, decoding, candidate, hbefore, hlater, hentry, rfl, hbuffers.symm⟩
  obtain ⟨cr3, site, after, -, hresult⟩ := hentry
  rw [(ObservationDecoder.decodeEntry_spec hresult).2]
  exact takeEntry_request htake

theorem selected (h : Paired read history decoder recorder) {cr3 service : Nat}
    {dispatch : DispatchPhase} {matched : Option PendingEntryCapture}
    {rest : List PendingEntryCapture} (hfresh : input.stop.epoch ∉ history.map Decoding.epoch)
    (hphase : (Decoding.mk decoder input).IsDispatch read dispatch)
    (htake : ObservationDecoder.takeEntry decoder.entryCaptures dispatch.request =
      (matched, rest))
    (hbuffers : ∀ candidate, matched = some candidate →
      dispatch.buffersBefore = candidate.buffers) :
    Stepped read (history ++ [⟨decoder, input⟩])
      { (Decoding.mk decoder input).seen with
        entryCaptures := rest
        selectedRequests := dispatch.request :: decoder.selectedRequests }
      (recorder.observeAll input.now
        (((matched.map fun candidate => (candidate.cr3, candidate.entry)).map
          fun (entryCr3, entry) => Observation.entry entryCr3 entry).toList ++
          [.dispatch cr3 service dispatch])) := by
  have hsite : dispatch.site.epoch = input.stop.epoch := hphase.1
  have hlender : lender (history ++ [⟨decoder, input⟩]) dispatch =
      matched.map fun candidate => candidate.entry.site.epoch := by
    rw [lender_now hsite hfresh, htake]
  have hqueue : ((matched.map fun candidate => candidate.entry.site.epoch).toList ++
      rest.map fun candidate => candidate.entry.site.epoch).Perm (queueEpochs decoder) := by
    have hperm := (takeEntry_perm decoder.entryCaptures dispatch.request).map
      fun candidate => candidate.entry.site.epoch
    rw [htake, List.map_append] at hperm
    cases matched with
    | none => exact hperm
    | some candidate => exact hperm
  obtain ⟨⟨entry, hentry, hcalls⟩, hafter⟩ :=
    @Recorder.observeMatched_calls recorder input.now cr3 service dispatch
      (matched.map fun candidate => (candidate.cr3, candidate.entry)) h.idle h.dispatched
  refine ⟨?_, h.queued_later ?_, fun hok pending hpending => ?_, fun hok => (hafter hok).1⟩
  · refine Held.sublist ?_ hcalls (List.Sublist.refl _)
    have hheld := h.held.stop ⟨decoder, input⟩ hfresh
    rw [← List.append_nil recorder.calls] at hheld
    apply hheld.replace
    · rintro _ ⟨⟩
      refine ⟨history.length, ⟨decoder, input⟩, by simp, hphase, ?_, nofun⟩
      intro observation hobservation
      rcases hentry with hnone | hmatched
      · cases hnone.symm.trans hobservation
      · rw [hmatched] at hobservation
        cases matched with
        | none => cases hobservation
        | some candidate =>
          cases hobservation
          exact h.entryOf (congrArg Prod.fst htake) (hbuffers candidate rfl)
    · have hstops : ((Call.mk entry (some dispatch) none).stops
          (history ++ [⟨decoder, input⟩])).Perm
          ((matched.map fun candidate => candidate.entry.site.epoch).toList ++
            [input.stop.epoch]) := by
        unfold Call.stops
        rw [Option.bind_some, hlender]
        rcases hentry with rfl | rfl
        · simpa [Call.epochs, hsite] using (List.perm_append_singleton _ _).symm
        · cases matched with
          | none => simp [Call.epochs, hsite]
          | some candidate => simp [Call.epochs, hsite]
      refine (hstops.append_right _).trans ?_
      rw [List.flatMap_nil, List.nil_append, List.append_assoc]
      exact (List.Perm.append_left _ List.perm_append_comm).trans
        (List.append_assoc .. ▸ hqueue.append_right _)
  · have hrest := (takeEntry_sublist decoder.entryCaptures dispatch.request).subset
    rw [htake] at hrest
    exact hrest
  · exact ⟨dispatch, (hafter hok).2 pending hpending, rfl⟩

theorem returned (h : Paired read history decoder recorder) {cr3 request : Nat}
    {rest : List Nat} {phase : ReturnPhase}
    (hfresh : input.stop.epoch ∉ history.map Decoding.epoch)
    (hstack : decoder.selectedRequests = request :: rest)
    (hphase : (Decoding.mk decoder input).IsReturn read request phase) :
    Stepped read (history ++ [⟨decoder, input⟩])
      { (Decoding.mk decoder input).seen with selectedRequests := rest }
      (recorder.observeReturn input.now cr3 phase) := by
  obtain ⟨hcalls, hafter⟩ := @Recorder.observeReturn_calls recorder input.now cr3 phase h.idle
  have hheld := h.held.stop ⟨decoder, input⟩ hfresh
  refine ⟨?_, h.queued_later (List.Subset.refl _), fun hok pending hpending => ?_,
    fun hok => (hafter hok).1⟩
  · rcases hcalls with hcalls | ⟨pending, dispatch, hpending, hdispatch, hcalls⟩
    · exact hheld.sublist hcalls (List.sublist_append_left _ _)
    refine Held.sublist ?_ hcalls (List.Sublist.refl _)
    have hwhole := Recorder.calls_of_dispatched hpending hdispatch
    have hrequest : dispatch.request = request := by
      obtain ⟨other, hother, hhead⟩ := h.waiting pending hpending
      cases hdispatch.symm.trans hother
      rw [hstack] at hhead
      exact (Option.some.inj hhead).symm
    rw [hwhole] at hheld
    apply hheld.replace
    · rintro _ ⟨⟩
      have hold := h.held.paired ⟨pending.entry, some dispatch, none⟩ (by simp [hwhole])
      obtain ⟨place, decoding, hplace, hdispatched, hentry, -⟩ := hold dispatch rfl
      obtain ⟨hlater, hbefore⟩ := @getElem?_later _ _ ⟨decoder, input⟩ _ _ hplace
      refine ⟨place, decoding, hlater, hdispatched, fun entry hsome => (hentry entry hsome).later, ?_⟩
      rintro _ ⟨⟩
      rw [← hrequest] at hphase
      refine ⟨history.length, ⟨decoder, input⟩, hbefore, by simp, hphase, ?_⟩
      obtain ⟨site, after, -, hresult⟩ := hphase
      exact (ObservationDecoder.decodeReturn_spec hresult).2
    · have hsite : phase.site.epoch = input.stop.epoch := by
        obtain ⟨site, after, hepoch, hresult⟩ := hphase
        rw [(ObservationDecoder.decodeReturn_spec hresult).1, hepoch]
      generalize hlent : (if pending.entry.isSome then [] else
        (lender (history ++ [⟨decoder, input⟩]) dispatch).toList) = lent
      have hold : (Call.mk pending.entry (some dispatch) none).stops
          (history ++ [⟨decoder, input⟩]) =
          (Call.mk pending.entry (some dispatch) none).epochs ++ lent := by
        rw [← hlent]
        rfl
      have hnew : (Call.mk pending.entry (some dispatch) (some phase)).stops
          (history ++ [⟨decoder, input⟩]) =
          (Call.mk pending.entry (some dispatch) none).epochs ++ [input.stop.epoch] ++ lent := by
        rw [← hlent, ← hsite]
        simp [Call.stops, Call.epochs]
      rw [hnew, List.flatMap_singleton, hold, List.append_assoc, List.append_assoc,
        List.append_assoc]
      apply List.Perm.append_left
      rw [← List.append_assoc lent]
      exact (List.perm_append_singleton _ _).symm
  · cases ((hafter hok).2).symm.trans hpending

/-- One stop: whatever it decodes to, and whether or not the recorder takes it. -/
theorem step (h : Paired read history decoder recorder)
    {outcome : DecodedObservation × ObservationDecoder}
    (hresult : (Decoding.mk decoder input).result read = .ok outcome) :
    input.stop.epoch ∉ history.map Decoding.epoch ∧
      Stepped read (history ++ [⟨decoder, input⟩]) outcome.2
        (outcome.1.apply recorder input.now) := by
  obtain ⟨hunseen, hdecodes⟩ := decode_decodes hresult
  have hfresh : input.stop.epoch ∉ history.map Decoding.epoch := fun hmem =>
    hunseen (h.seen _ hmem)
  refine ⟨hfresh, ?_⟩
  cases hdecodes with
  | entry candidate hentry => exact h.entry hfresh hentry
  | selected cr3 service dispatch matched rest hsite htake _ _ hbuffers =>
    have hphase : (Decoding.mk decoder input).IsDispatch read dispatch :=
      ⟨hsite, _, _, cr3, service, _, hresult, rfl⟩
    exact h.selected hfresh hphase htake hbuffers
  | foreign cr3 service dispatch hsite hfields =>
    have hstepped := @h.foreign _ _ _ _ _ _ cr3 service dispatch hfresh hfields
    rw [show recorder.observeDispatch input.now cr3 service dispatch =
      recorder.observe input.now (.dispatch cr3 service dispatch) from rfl,
      ← Recorder.observeAll_single] at hstepped
    exact hstepped
  | idle => exact h.ignored hfresh
  | returned cr3 request rest phase hstack hphase =>
    have hstepped := @h.returned _ _ _ _ _ _ cr3 request rest phase hfresh hstack hphase
    rw [show recorder.observeReturn input.now cr3 phase =
      recorder.observe input.now (.returned cr3 phase) from rfl,
      ← Recorder.observeAll_single] at hstepped
    exact hstepped

end Paired

theorem Decodes.seenEpochs {read : ReadMemory ρ} {decoding : Decoding ρ}
    {outcome : DecodedObservation × ObservationDecoder} (h : Decodes read decoding outcome) :
    outcome.2.seenEpochs = decoding.epoch :: decoding.decoder.seenEpochs := by
  cases h <;> rfl

theorem Stepped.paired {read : ReadMemory ρ} {history : List (Decoding ρ)} {input : StopInput ρ}
    {decoder next : ObservationDecoder} {recorder : Recorder} {after : Recorder × Except String Unit}
    (hpaired : Paired read history decoder recorder)
    (hfresh : input.stop.epoch ∉ history.map Decoding.epoch)
    (hseen : next.seenEpochs = input.stop.epoch :: decoder.seenEpochs)
    (h : Stepped read (history ++ [⟨decoder, input⟩]) next after) (hok : after.2 = .ok ()) :
    Paired read (history ++ [⟨decoder, input⟩]) next after.1 where
  seen := by
    intro epoch hepoch
    rw [List.map_append, List.mem_append] at hepoch
    rw [hseen, List.mem_cons]
    rcases hepoch with hold | hnew
    · exact .inr (hpaired.seen epoch hold)
    · exact .inl (List.mem_singleton.mp hnew)
  distinct := by
    rw [List.map_append, List.nodup_append_comm]
    exact List.nodup_cons.mpr ⟨hfresh, hpaired.distinct⟩
  held := h.held
  queued := h.queued
  waiting := h.waiting hok
  idle := h.idle hok

/-- A run keeps the decoder and the recorder in step, up to the error it ends at. -/
theorem drive_held {read : ReadMemory ρ} {decoder : ObservationDecoder} {recorder : Recorder}
    (inputs : List (StopInput ρ)) {before : List (Decoding ρ)}
    (h : Paired read before decoder recorder) :
    let outcome := drive read decoder recorder inputs
    Held read (before ++ outcome.1) outcome.2.calls [] ∧
      ((before ++ outcome.1).map Decoding.epoch).Nodup ∧
      outcome.1.map Decoding.input <+: inputs := by
  induction inputs generalizing before decoder recorder with
  | nil =>
    refine ⟨?_, ?_, List.nil_prefix⟩
    · rw [drive, List.append_nil]
      exact h.held.sublist (List.Sublist.refl _) (List.nil_sublist _)
    · rw [drive, List.append_nil]
      exact h.distinct
  | cons input rest ih =>
    intro outcome
    rcases hresult : (Decoding.mk decoder input).result read with error | ⟨decoded, next⟩
    · have houtcome : outcome = ([], recorder) := by simp only [outcome, drive, hresult]
      rw [houtcome, List.append_nil]
      exact ⟨h.held.sublist (List.Sublist.refl _) (List.nil_sublist _), h.distinct,
        List.nil_prefix⟩
    obtain ⟨hfresh, hstepped⟩ := h.step hresult
    have hseen := (decode_decodes hresult).2.seenEpochs
    rcases happly : decoded.apply recorder input.now with ⟨after, result⟩
    rw [happly] at hstepped
    cases result with
    | error text =>
      have houtcome : outcome = ([⟨decoder, input⟩], after) := by
        simp only [outcome, drive, hresult, happly]
      rw [houtcome]
      refine ⟨hstepped.held.sublist (List.Sublist.refl _) (List.nil_sublist _), ?_, ?_⟩
      · rw [List.map_append, List.nodup_append_comm]
        exact List.nodup_cons.mpr ⟨hfresh, h.distinct⟩
      · exact List.prefix_append [input] rest
    | ok done =>
      obtain ⟨hheld, hdistinct, hinputs⟩ := ih (Stepped.paired h hfresh hseen hstepped rfl)
      have houtcome : outcome = (⟨decoder, input⟩ :: (drive read next after rest).1,
          (drive read next after rest).2) := by
        simp only [outcome, drive, hresult, happly]
      rw [houtcome]
      rw [List.append_assoc, List.singleton_append] at hheld hdistinct
      exact ⟨hheld, hdistinct, List.prefix_cons_inj input |>.mpr hinputs⟩

/-- The retained records are each of one request, and no stop contributes to two of them,
nor twice to one. -/
def Recorder.OnePerRequest (read : ReadMemory ρ) (history : List (Decoding ρ))
    (recorder : Recorder) : Prop :=
  (∀ record ∈ recorder.records, OneRequest read history record.call) ∧
    (recorder.records.flatMap fun record => record.call.stops history).Nodup

theorem Held.onePerRequest {read : ReadMemory ρ} {history : List (Decoding ρ)} {calls : List Call}
    {recorder : Recorder} (h : Held read history calls [])
    (hrecords : recorder.recordCalls.Sublist calls) : recorder.OnePerRequest read history := by
  obtain ⟨hpaired, hapart, -⟩ := h.sublist hrecords (List.Sublist.refl _)
  refine ⟨fun record hrecord => hpaired _ (List.mem_map_of_mem hrecord), ?_⟩
  rw [List.append_nil, Recorder.recordCalls, List.flatMap_map] at hapart
  exact hapart

/-- Any stops, decoded in order and applied to one new recorder up to the first error: each
retained record is made of phases of one request, in the order they were decoded, with the
buffers captured at its own entry and return, and no stop contributes to two records.  The
same holds once the trace is finished. -/
theorem records_pair_one_request (read : ReadMemory ρ) {decoder : ObservationDecoder}
    (hfresh : decoder.Fresh) {traceId : String} {label : Option String}
    {manifest : ServiceManifest} {target : SkControl.TargetIdentity} {imageBase : Nat}
    {limits : TraceLimits} {recorder : Recorder}
    (hnew : Recorder.new traceId label manifest target imageBase limits = .ok recorder)
    (inputs : List (StopInput ρ)) (now : Option HostQpcSample) :
    let (history, last) := drive read decoder recorder inputs
    history.map Decoding.input <+: inputs ∧ (history.map Decoding.epoch).Nodup ∧
      last.OnePerRequest read history ∧ (last.finish now).1.OnePerRequest read history := by
  obtain ⟨hqueue, hstack, -⟩ := hfresh
  obtain ⟨hrecords, hpending⟩ := Recorder.new_empty hnew
  have hcalls : recorder.calls = [] := by
    rw [Recorder.calls_of_none hpending, Recorder.recordCalls, hrecords, List.map_nil]
  have hstart : Paired read [] decoder recorder := by
    refine ⟨?_, List.nodup_nil, ?_, ?_, ?_, fun _ => hpending⟩
    · intro epoch hepoch
      cases hepoch
    · rw [hcalls, queueEpochs, hqueue]
      refine ⟨?_, List.nodup_nil, ?_⟩
      · intro call hcall
        cases hcall
      · intro epoch hepoch
        cases hepoch
    · rw [hqueue]
      intro candidate hcandidate
      cases hcandidate
    · rw [hpending]
      intro pending hsome
      cases hsome
  obtain ⟨hheld, hdistinct, hinputs⟩ := drive_held inputs hstart
  rw [List.nil_append] at hheld hdistinct
  exact ⟨hinputs, hdistinct, hheld.onePerRequest (Recorder.recordCalls_sublist _),
    hheld.onePerRequest (Recorder.finish_calls _ now)⟩

namespace Sample

def decoder : ObservationDecoder where
  manifest := manifest
  target := target
  imageBase := 0x10000000
  slotMap := [some 0, some 1, some 2]
  breakpoints := .ok
    [⟨0, ⟨0x10001000, [0x90]⟩⟩, ⟨1, ⟨0x10002000, [0x90]⟩⟩, ⟨2, ⟨0x10003000, [0x90]⟩⟩]
  entryCaptures := []
  selectedRequests := []
  seenEpochs := []

def read : ReadMemory Unit := fun _ count =>
  if count = 2 then pure [47, 0] else throw "unmapped"

def stop (slot address time : Nat) : StopInput Unit where
  stop :=
    { epoch := ⟨"epoch-00000000000" ++ toString slot⟩
      target := target
      event :=
        { messageType := 0, vector := 1, vp := 0, vtl := 1, cpl := 0, dispatcherContext := 0
          advanceInstructionPointer := false, reason := .hardwareBreakpoint slot }
      registers := [.rax, .rcx, .rdx, .r8, .r9, .r14, .rsp].map
        (fun name => ⟨name, 0, 0x5000, 0⟩) ++ [⟨.cr3, 0, 0x1000, 0⟩]
      instruction := ⟨address, [0x90]⟩ }
  clock := { hostQpc := none, hostMonotonicUs := time, hostElapsedUs := time }
  bufferLimit := 64
  memory := ()
  now := none

def call : List (StopInput Unit) :=
  [stop 0 0x10001000 1, stop 1 0x10002000 2, stop 2 0x10003000 3]

end Sample

/-- One whole call leaves one complete record. -/
theorem records_pair_one_request_sample :
    let (history, last) := drive Sample.read Sample.decoder Sample.recorder Sample.call
    last.records.map ServiceCallRecord.complete = [true] ∧
      last.OnePerRequest Sample.read history := by
  have hfresh : Sample.decoder.Fresh := ⟨rfl, rfl, rfl⟩
  have hcomplete : (drive Sample.read Sample.decoder Sample.recorder Sample.call).2.records.map
      ServiceCallRecord.complete = [true] := by
    decide
  have hpaired := records_pair_one_request Sample.read hfresh Sample.new_recorder Sample.call none
  -- the run itself is not unfolded again
  generalize drive Sample.read Sample.decoder Sample.recorder Sample.call = outcome at *
  obtain ⟨history, last⟩ := outcome
  exact ⟨hcomplete, hpaired.2.2.1⟩

end WindbgMcp.SkServiceTrace
