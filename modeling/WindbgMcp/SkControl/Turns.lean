import Mathlib.Data.List.Nodup
import Mathlib.Data.List.Induction
import WindbgMcp.Library.Fallible
import WindbgMcp.Library.Run
import WindbgMcp.SkControl.Session

/-! What one call can do, whatever line the provider answers with, and what follows for
every sequence of calls: registers are asked for and written only while the target is
held, under the epoch of the last accepted transition, no epoch is accepted twice, and a
rejected reply ends the session unless the method rejects it without poisoning. -/
namespace WindbgMcp.SkControl
open Library

variable (parse : String → Option Response)

def replyOf (line : Option String) : Option Response := line.bind parse

/-- The reply does not answer this request: it is missing or malformed, names another
request, target or operation, or its epoch is not the one the operation calls for. -/
def Misframed (session : ControlSession) (operation : Operation) : Option Response → Prop
  | none => True
  | some response =>
    response.protocol ≠ protocolVersion ∨ response.id ≠ session.nextId ∨
      response.target ≠ session.target ∨
      match response.outcome with
      | .error _ => response.epoch ≠ session.epoch
      | .ok value =>
        operation.expects value = false ∨
          if value.changesEpoch then
            response.epoch ∈ session.issuedEpochs ∨
              (StopEpoch.new response.epoch.value).isOk = false
          else response.epoch ≠ session.epoch

/-- The value is not one the operation can have: another held event than the published or
the held one, values for other registers, an unverified write, a VTL out of range, or a
capability set that breaks its own rules. -/
def Contradicts (session : ControlSession) : Operation → ReplyValue → Prop
  | .capabilities, .capabilities value => value.validate.isOk = false
  | .publishStop event, .stopPublished echoed => echoed ≠ event
  | .heldEvent, .heldEvent event => some event ≠ session.held
  | .readRegisters registers, .registers values =>
    (validateValues registers values).isOk = false
  | .writeRegisters writes, .registersWritten values =>
    (validateValues (writes.map RegisterWrite.name) values).isOk = false ∨
      (validateGuardedWrites writes values).isOk = false
  | .activeVtl, .activeVtl vtl => 15 < vtl
  | _, _ => False

def Unguarded (session : ControlSession) : Operation → ReplyValue → Prop
  | .capabilities, .capabilities value => value.validate.isOk = false
  | .heldEvent, .heldEvent event =>
    some event ≠ session.held ∧
      ((session.requireVector event).isOk = false ∨
        (event.validate session.target).isOk = false)
  | _, _ => False

def Carries (session : ControlSession) (operation : Operation)
    (property : ControlSession → Operation → ReplyValue → Prop) (reply : Option Response) : Prop :=
  ¬ Misframed session operation reply ∧
    ∃ response value, reply = some response ∧ response.outcome = .ok value ∧
      property session operation value

def Faulty (session : ControlSession) (operation : Operation) (reply : Option Response) : Prop :=
  Misframed session operation reply ∨ Carries session operation Contradicts reply

def Operation.registerAccess : Operation → Bool
  | readRegisters _ | writeRegisters _ => true
  | _ => false

def Operation.transition : Operation → Bool
  | beginArm | finishArm | publishStop _ | release => true
  | _ => false

def ControlSession.request (session : ControlSession) (operation : Operation) : Request where
  protocol := protocolVersion
  id := session.nextId
  target := session.target
  epoch := session.epoch
  operation := operation

/-- Everything an exchange can do. -/
inductive Exchanges (session : ControlSession) (operation : Operation) (reply : Option Response) :
    Turn ReplyValue → Prop
  | silent (text : String) (h : session.poisoned = true ∨ 2 ^ 64 ≤ session.nextId + 1) :
    Exchanges session operation reply ⟨session, none, .error (.said text)⟩
  | rejected (failure : Failure) (hopen : session.poisoned = false)
      (hid : session.nextId + 1 < 2 ^ 64) (hreply : Misframed session operation reply)
      (hfailure : ∀ error, failure ≠ .refusal error) :
    Exchanges session operation reply
      ⟨{ session with nextId := session.nextId + 1, poisoned := true },
        some (session.request operation), .error failure⟩
  | refused (response : Response) (error : ProviderError) (hopen : session.poisoned = false)
      (hid : session.nextId + 1 < 2 ^ 64) (hreply : ¬ Misframed session operation reply)
      (hresponse : reply = some response) (houtcome : response.outcome = .error error) :
    Exchanges session operation reply
      ⟨{ session with nextId := session.nextId + 1 },
        some (session.request operation), .error (.refusal error)⟩
  | kept (response : Response) (value : ReplyValue) (hopen : session.poisoned = false)
      (hid : session.nextId + 1 < 2 ^ 64) (hreply : ¬ Misframed session operation reply)
      (hresponse : reply = some response) (houtcome : response.outcome = .ok value)
      (hexpects : operation.expects value = true) (hchanges : value.changesEpoch = false) :
    Exchanges session operation reply
      ⟨{ session with nextId := session.nextId + 1 },
        some (session.request operation), .ok value⟩
  | moved (response : Response) (value : ReplyValue) (hopen : session.poisoned = false)
      (hid : session.nextId + 1 < 2 ^ 64) (hreply : ¬ Misframed session operation reply)
      (hresponse : reply = some response) (houtcome : response.outcome = .ok value)
      (hexpects : operation.expects value = true) (hchanges : value.changesEpoch = true)
      (hfresh : response.epoch ∉ session.issuedEpochs) :
    Exchanges session operation reply
      ⟨{ session with
          nextId := session.nextId + 1
          issuedEpochs := response.epoch :: session.issuedEpochs
          epoch := response.epoch },
        some (session.request operation), .ok value⟩

variable {parse}
variable {session : ControlSession} {operation : Operation} {response : Response}

def Response.Answers (response : Response) (session : ControlSession) : Prop :=
  response.protocol = protocolVersion ∧ response.id = session.nextId ∧
    response.target = session.target

theorem judge_exchanges (hopen : session.poisoned = false) (hid : session.nextId + 1 < 2 ^ 64)
    (hanswers : response.Answers session) :
    let judged := ControlSession.judge
      { session with nextId := session.nextId + 1, poisoned := true } operation response
    Exchanges session operation (some response)
      ⟨judged.1, some (session.request operation), judged.2⟩ := by
  obtain ⟨hprotocol, hnumber, htarget⟩ := hanswers
  have hmisframed : Misframed session operation (some response) ↔
      match response.outcome with
      | .error _ => response.epoch ≠ session.epoch
      | .ok value =>
        operation.expects value = false ∨
          if value.changesEpoch then
            response.epoch ∈ session.issuedEpochs ∨
              (StopEpoch.new response.epoch.value).isOk = false
          else response.epoch ≠ session.epoch := by
    simp only [Misframed, hprotocol, hnumber, htarget, ne_eq, not_true_eq_false, false_or]
  have hcleared : { session with nextId := session.nextId + 1, poisoned := false } =
      { session with nextId := session.nextId + 1 } := by rw [← hopen]
  unfold ControlSession.judge
  cases houtcome : response.outcome with
  | error error =>
    rw [houtcome] at hmisframed
    dsimp only at hmisframed ⊢
    split
    · rename_i hepoch
      exact .rejected _ hopen hid (hmisframed.mpr hepoch) (fun _ => nofun)
    · rename_i hepoch
      rw [hcleared]
      exact .refused response error hopen hid (fun h => hepoch (hmisframed.mp h)) rfl houtcome
  | ok value =>
    rw [houtcome] at hmisframed
    dsimp only at hmisframed ⊢
    cases hexpects : operation.expects value with
    | false =>
      rw [hexpects] at hmisframed
      exact .rejected _ hopen hid (hmisframed.mpr (.inl rfl)) (fun _ => nofun)
    | true =>
      simp only [hexpects, Bool.not_true, Bool.false_eq_true, if_false, reduceCtorEq,
        false_or] at hmisframed ⊢
      split
      · rename_i hchanges
        rw [if_pos hchanges] at hmisframed
        split
        · rename_i hissued
          exact .rejected _ hopen hid (hmisframed.mpr (.inl hissued)) (fun _ => nofun)
        · rename_i hfresh
          cases hnew : StopEpoch.new response.epoch.value with
          | error text =>
            exact .rejected _ hopen hid (hmisframed.mpr (.inr (by rw [hnew]; rfl))) (fun _ => nofun)
          | ok _ =>
            have hframed : ¬ Misframed session operation (some response) := by
              rw [hmisframed, hnew]
              simp [hfresh]
            have hmoved := Exchanges.moved response value hopen hid hframed rfl houtcome
              hexpects hchanges hfresh
            rw [hopen] at hmoved
            exact hmoved
      · rename_i hchanges
        rw [if_neg hchanges] at hmisframed
        split
        · rename_i hepoch
          exact .rejected _ hopen hid (hmisframed.mpr hepoch) (fun _ => nofun)
        · rename_i hepoch
          rw [hcleared]
          exact .kept response value hopen hid (fun h => hepoch (hmisframed.mp h)) rfl houtcome
            hexpects (by simpa using hchanges)

theorem exchange_exchanges (parse : String → Option Response) (session : ControlSession)
    (operation : Operation) (line : Option String) :
    Exchanges session operation (replyOf parse line)
      (session.exchange parse operation line) := by
  unfold ControlSession.exchange
  split
  · exact .silent _ (.inl ‹_›)
  split
  · exact .silent _ (.inr ‹_›)
  rename_i hopen hid
  replace hopen : session.poisoned = false := by simpa using hopen
  replace hid : session.nextId + 1 < 2 ^ 64 := by omega
  cases line with
  | none => exact .rejected .unread hopen hid trivial (fun _ h => Failure.noConfusion h)
  | some text =>
    simp only [ControlSession.accept]
    cases hparse : parse text with
    | none =>
      have hreply : replyOf parse (some text) = none := hparse
      rw [hreply]
      exact .rejected (.malformed text) hopen hid trivial (fun _ h => Failure.noConfusion h)
    | some response =>
      have hreply : replyOf parse (some text) = some response := hparse
      rw [hreply]
      dsimp only
      split
      · rename_i hframe
        apply Exchanges.rejected _ hopen hid
        · simp only [Misframed]
          tauto
        · exact fun _ h => Failure.noConfusion h
      · rename_i hframe
        apply judge_exchanges hopen hid
        simp only [Response.Answers]
        tauto

/-- The operation may be written: the session is open, and held if registers are
touched. -/
structure Writes (session : ControlSession) (operation : Operation) : Prop where
  unpoisoned : session.poisoned = false
  fits : session.nextId + 1 < 2 ^ 64
  held : operation.registerAccess = true → session.phase ≠ .running

/-- Everything a call can do. -/
inductive Calls (session : ControlSession) (operation : Operation) (reply : Option Response) :
    Turn Answer → Prop
  | silent (text : String) : Calls session operation reply ⟨session, none, .error (.said text)⟩
  | rejected (failure : Failure) (hwrites : Writes session operation)
      (hreply : Misframed session operation reply) (hfailure : ∀ error, failure ≠ .refusal error) :
    Calls session operation reply
      ⟨{ session with nextId := session.nextId + 1, poisoned := true },
        some (session.request operation), .error failure⟩
  | refused (response : Response) (error : ProviderError) (hwrites : Writes session operation)
      (hreply : ¬ Misframed session operation reply)
      (hresponse : reply = some response) (houtcome : response.outcome = .error error) :
    Calls session operation reply
      ⟨{ session with nextId := session.nextId + 1 },
        some (session.request operation), .error (.refusal error)⟩
  | kept (response : Response) (value : ReplyValue) (capabilities : Option Capabilities)
      (poisoned : Bool) (result : Except Failure Answer) (hwrites : Writes session operation)
      (hreply : ¬ Misframed session operation reply)
      (hresponse : reply = some response) (houtcome : response.outcome = .ok value)
      (hkept : operation.transition = false)
      (hresult : ∀ error, result ≠ .error (.refusal error))
      (hpoisoned : Contradicts session operation value →
        (poisoned = true ↔ ¬ Unguarded session operation value)) :
    Calls session operation reply
      ⟨{ session with
          nextId := session.nextId + 1
          capabilities := capabilities
          poisoned := poisoned },
        some (session.request operation), result⟩
  | moved (response : Response) (value : ReplyValue) (phase : Phase)
      (hwrites : Writes session operation)
      (hreply : ¬ Misframed session operation reply)
      (hresponse : reply = some response) (houtcome : response.outcome = .ok value)
      (hmoved : operation.transition = true) (hfresh : response.epoch ∉ session.issuedEpochs)
      (hvalue : ¬ Contradicts session operation value) :
    Calls session operation reply
      ⟨{ session with
          nextId := session.nextId + 1
          issuedEpochs := response.epoch :: session.issuedEpochs
          epoch := response.epoch
          phase := phase },
        some (session.request operation), .ok .done⟩
  | altered (response : Response) (value : ReplyValue) (text : String)
      (hwrites : Writes session operation)
      (hreply : ¬ Misframed session operation reply)
      (hresponse : reply = some response) (houtcome : response.outcome = .ok value)
      (hmoved : operation.transition = true)
      (hvalue : ¬ Unguarded session operation value) :
    Calls session operation reply
      ⟨{ session with
          nextId := session.nextId + 1
          issuedEpochs := response.epoch :: session.issuedEpochs
          epoch := response.epoch
          poisoned := true },
        some (session.request operation), .error (.said text)⟩

def FinishesKept (session : ControlSession) (operation : Operation)
    (finish : ControlSession → ReplyValue → ControlSession × Except Failure Answer) : Prop :=
  ∀ value, session.poisoned = false → operation.expects value = true →
    ∃ capabilities poisoned result,
    finish { session with nextId := session.nextId + 1 } value =
      ({ session with
          nextId := session.nextId + 1
          capabilities := capabilities
          poisoned := poisoned }, result) ∧
    (∀ error, result ≠ .error (.refusal error)) ∧
    (Contradicts session operation value →
      (poisoned = true ↔ ¬ Unguarded session operation value))

def FinishesMoved (session : ControlSession) (operation : Operation)
    (finish : ControlSession → ReplyValue → ControlSession × Except Failure Answer) : Prop :=
  ∀ after value, operation.expects value = true →
    ¬ Unguarded session operation value ∧
    ((∃ phase, finish after value = ({ after with phase := phase }, .ok .done) ∧
        ¬ Contradicts session operation value) ∨
      ∃ text, finish after value = after.poison text)

variable {checks : Except String Unit} {line : Option String}
  {finish : ControlSession → ReplyValue → ControlSession × Except Failure Answer}

theorem guarded_kept (hkept : operation.transition = false)
    (hheld : checks = .ok () → operation.registerAccess = true → session.phase ≠ .running)
    (hfinish : FinishesKept session operation finish) :
    Calls session operation (replyOf parse line)
      (session.guarded parse checks operation line finish) := by
  unfold ControlSession.guarded
  cases checks with
  | error text => exact .silent text
  | ok _ =>
    have hexchange := exchange_exchanges parse session operation line
    have hwrites : session.poisoned = false → session.nextId + 1 < 2 ^ 64 →
        Writes session operation := fun hopen hid => ⟨hopen, hid, hheld rfl⟩
    generalize session.exchange parse operation line = turn at hexchange ⊢
    cases hexchange with
    | silent text => exact .silent text
    | rejected failure hopen hid hreply hfailure =>
      exact .rejected failure (hwrites hopen hid) hreply hfailure
    | refused response error hopen hid hreply hresponse houtcome =>
      exact .refused response error (hwrites hopen hid) hreply hresponse houtcome
    | kept response value hopen hid hreply hresponse houtcome hexpects =>
      obtain ⟨capabilities, poisoned, result, heq, hresult, hpoisoned⟩ :=
        hfinish value hopen hexpects
      simp only [heq]
      exact .kept response value capabilities poisoned result (hwrites hopen hid) hreply hresponse
        houtcome hkept hresult hpoisoned
    | moved response value hopen hid hreply hresponse houtcome hexpects hchanges =>
      cases operation <;> cases value <;>
        simp_all [Operation.expects, Operation.transition, ReplyValue.changesEpoch]

theorem guarded_moved (hmoved : operation.transition = true)
    (hfinish : FinishesMoved session operation finish) :
    Calls session operation (replyOf parse line)
      (session.guarded parse checks operation line finish) := by
  unfold ControlSession.guarded
  cases checks with
  | error text => exact .silent text
  | ok _ =>
    have hexchange := exchange_exchanges parse session operation line
    have hwrites : session.poisoned = false → session.nextId + 1 < 2 ^ 64 →
        Writes session operation := by
      intro hopen hid
      refine ⟨hopen, hid, fun haccess => ?_⟩
      cases operation <;> simp_all [Operation.registerAccess, Operation.transition]
    generalize session.exchange parse operation line = turn at hexchange ⊢
    cases hexchange with
    | silent text => exact .silent text
    | rejected failure hopen hid hreply hfailure =>
      exact .rejected failure (hwrites hopen hid) hreply hfailure
    | refused response error hopen hid hreply hresponse houtcome =>
      exact .refused response error (hwrites hopen hid) hreply hresponse houtcome
    | kept response value hopen hid hreply hresponse houtcome hexpects hchanges =>
      cases operation <;> cases value <;>
        simp_all [Operation.expects, Operation.transition, ReplyValue.changesEpoch]
    | moved response value hopen hid hreply hresponse houtcome hexpects hchanges hfresh =>
      obtain ⟨hguarded, ⟨phase, heq, hvalue⟩ | ⟨text, heq⟩⟩ := hfinish
        { session with
          nextId := session.nextId + 1
          issuedEpochs := response.epoch :: session.issuedEpochs
          epoch := response.epoch } value hexpects
      · simp only [heq]
        exact .moved response value phase (hwrites hopen hid) hreply hresponse houtcome hmoved
          hfresh hvalue
      · simp only [heq, ControlSession.poison]
        exact .altered response value text (hwrites hopen hid) hreply hresponse houtcome hmoved
          hguarded

theorem capabilities_kept :
    FinishesKept session .capabilities ControlSession.checkCapabilities := by
  intro value hopen hexpects
  cases value with
  | capabilities value =>
    simp only [ControlSession.checkCapabilities, Contradicts, Unguarded]
    cases hvalue : value.validate with
    | error text => exact ⟨_, _, _, rfl, fun _ => nofun, by simp [hopen]⟩
    | ok _ => exact ⟨_, _, _, rfl, fun _ => nofun, by simp⟩
  | _ => cases hexpects

theorem held_kept : FinishesKept session .heldEvent ControlSession.checkHeld := by
  intro value hopen hexpects
  cases value with
  | heldEvent event =>
    have hsame : ({ session with nextId := session.nextId + 1 } : ControlSession).requireVector event =
        session.requireVector event := rfl
    simp only [ControlSession.checkHeld, Contradicts, Unguarded, hsame]
    cases hvector : session.requireVector event with
    | error text => exact ⟨_, _, _, rfl, fun _ => nofun, by simp [hopen]⟩
    | ok _ =>
      cases hevent : event.validate session.target with
      | error text => exact ⟨_, _, _, rfl, fun _ => nofun, by simp [hopen]⟩
      | ok _ =>
        dsimp only
        split
        · exact ⟨_, _, _, rfl, fun _ => nofun, by simp⟩
        · rename_i hheld
          exact ⟨_, _, _, rfl, fun _ => nofun, fun h => absurd h hheld⟩
  | _ => cases hexpects

theorem read_kept {registers : List RegisterName} :
    FinishesKept session (.readRegisters registers) (ControlSession.checkRead registers) := by
  intro value hopen hexpects
  cases value with
  | registers values =>
    simp only [ControlSession.checkRead, Contradicts, Unguarded]
    cases hvalues : validateValues registers values with
    | error text => exact ⟨_, _, _, rfl, fun _ => nofun, by simp⟩
    | ok _ => exact ⟨_, _, _, rfl, fun _ => nofun, by simp⟩
  | _ => cases hexpects

theorem written_kept {writes : List RegisterWrite} :
    FinishesKept session (.writeRegisters writes) (ControlSession.checkWritten writes) := by
  intro value hopen hexpects
  cases value with
  | registersWritten values =>
    simp only [ControlSession.checkWritten, Contradicts, Unguarded]
    cases hvalues : validateValues (writes.map RegisterWrite.name) values with
    | error text => exact ⟨_, _, _, rfl, fun _ => nofun, by simp⟩
    | ok _ =>
      cases hwrites : validateGuardedWrites writes values with
      | error text => exact ⟨_, _, _, rfl, fun _ => nofun, by simp⟩
      | ok _ => exact ⟨_, _, _, rfl, fun _ => nofun, by simp⟩
  | _ => cases hexpects

theorem activeVtl_kept : FinishesKept session .activeVtl ControlSession.checkActiveVtl := by
  intro value hopen hexpects
  cases value with
  | activeVtl vtl =>
    simp only [ControlSession.checkActiveVtl, Contradicts, Unguarded]
    split
    · exact ⟨_, _, _, rfl, fun _ => nofun, by simp⟩
    · rename_i hvtl
      exact ⟨_, _, _, rfl, fun _ => nofun, fun h => absurd h hvtl⟩
  | _ => cases hexpects

theorem checkMoved_moved {expected : ReplyValue} {phase : Phase} {method : String}
    (hexpected : ∀ value, operation.expects value = true → value = expected)
    (hguarded : ∀ value, ¬ Unguarded session operation value)
    (hvalue : ∀ value, ¬ Contradicts session operation value) :
    FinishesMoved session operation (ControlSession.checkMoved expected phase method) := by
  intro after value hexpects
  refine ⟨hguarded value, .inl ⟨phase, ?_, hvalue value⟩⟩
  have heq := hexpected value hexpects
  simp only [ControlSession.checkMoved, heq, ne_eq, not_true_eq_false, if_false]

theorem published_moved {event : HeldEvent} :
    FinishesMoved session (.publishStop event) (ControlSession.checkPublished event) := by
  intro after value hexpects
  cases value with
  | stopPublished echoed =>
    refine ⟨id, ?_⟩
    simp only [ControlSession.checkPublished, Contradicts]
    split
    · exact .inr ⟨_, rfl⟩
    · exact .inl ⟨_, rfl, ‹_›⟩
  | _ => cases hexpects

theorem held_of_checks {rest : Except String Unit}
    (h : (do session.requireRegisterStop; rest) = Except.ok ()) : session.phase ≠ .running := by
  intro hrunning
  simp [ControlSession.requireRegisterStop, hrunning, bind, Except.bind] at h

theorem call_calls (parse : String → Option Response) (session : ControlSession)
    (operation : Operation) (line : Option String) :
    Calls session operation (replyOf parse line) (session.call parse operation line) := by
  unfold ControlSession.call
  cases operation with
  | capabilities => exact guarded_kept rfl (fun _ => Bool.noConfusion) capabilities_kept
  | beginArm =>
    apply guarded_moved rfl
    apply checkMoved_moved _ (fun _ => id) (fun _ => id)
    intro value hexpects
    cases value <;> first | rfl | cases hexpects
  | finishArm =>
    apply guarded_moved rfl
    apply checkMoved_moved _ (fun _ => id) (fun _ => id)
    intro value hexpects
    cases value <;> first | rfl | cases hexpects
  | publishStop event => exact guarded_moved rfl published_moved
  | heldEvent => exact guarded_kept rfl (fun _ => Bool.noConfusion) held_kept
  | readRegisters registers => exact guarded_kept rfl (fun h _ => held_of_checks h) read_kept
  | writeRegisters writes => exact guarded_kept rfl (fun h _ => held_of_checks h) written_kept
  | activeVtl => exact guarded_kept rfl (fun _ => Bool.noConfusion) activeVtl_kept
  | release =>
    apply guarded_moved rfl
    apply checkMoved_moved _ (fun _ => id) (fun _ => id)
    intro value hexpects
    cases value <;> first | rfl | cases hexpects

abbrev Input := Operation × Option String

def step (parse : String → Option Response) (session : ControlSession) (input : Input) :
    ControlSession :=
  (session.call parse input.1 input.2).session

def accepted (parse : String → Option Response) (visit : ControlSession × Input) :
    Option StopEpoch :=
  let turn := visit.1.call parse visit.2.1 visit.2.2
  match turn.result with
  | .ok _ => if visit.2.1.transition then some turn.session.epoch else none
  | .error _ => none

def acceptedEpochs (parse : String → Option Response) (session : ControlSession)
    (inputs : List Input) : List StopEpoch :=
  session.epoch :: (visits (step parse) session inputs).filterMap (accepted parse)

def SilentFrom (parse : String → Option Response) (session : ControlSession) : Prop :=
  ∀ inputs, ∀ visit ∈ visits (step parse) session inputs,
    (visit.1.call parse visit.2.1 visit.2.2).written = none

def Ended (session : ControlSession) : Prop :=
  session.poisoned = true ∨ 2 ^ 64 ≤ session.nextId + 1

theorem not_ended_of_writes (hwrites : Writes session operation) : ¬ Ended session := by
  intro hended
  have hfits := hwrites.fits
  cases hended with
  | inl hpoisoned => exact absurd hpoisoned (by rw [hwrites.unpoisoned]; exact Bool.noConfusion)
  | inr hspent => omega

theorem call_of_ended (parse : String → Option Response) (operation : Operation)
    (line : Option String) (hended : Ended session) :
    ∃ text, session.call parse operation line = ⟨session, none, .error (.said text)⟩ := by
  have hcalls := call_calls parse session operation line
  generalize session.call parse operation line = turn at hcalls
  cases hcalls with
  | silent text => exact ⟨text, rfl⟩
  | rejected _ hwrites => exact absurd hended (not_ended_of_writes hwrites)
  | refused _ _ hwrites => exact absurd hended (not_ended_of_writes hwrites)
  | kept _ _ _ _ _ hwrites => exact absurd hended (not_ended_of_writes hwrites)
  | moved _ _ _ hwrites => exact absurd hended (not_ended_of_writes hwrites)
  | altered _ _ _ hwrites => exact absurd hended (not_ended_of_writes hwrites)

theorem negotiate_writes (hopen : ¬ Ended session) :
    (session.call parse .capabilities none).written = some (session.request .capabilities) := by
  simp only [Ended, not_or, Bool.not_eq_true, Nat.not_le] at hopen
  have hspent : ¬ 2 ^ 64 ≤ session.nextId + 1 := Nat.not_le.mpr hopen.2
  simp only [ControlSession.call, ControlSession.negotiate, ControlSession.guarded,
    ControlSession.exchange, hopen.1, Bool.false_eq_true, if_false, if_neg hspent,
    ControlSession.accept]
  rfl

theorem silentFrom_iff : SilentFrom parse session ↔ Ended session := by
  constructor
  · intro hsilent
    by_contra hopen
    have hnone := hsilent [(.capabilities, none)] _ List.mem_cons_self
    rw [negotiate_writes hopen] at hnone
    exact Option.some_ne_none _ hnone
  · intro hended inputs visit hvisit
    have hvisited : Ended visit.1 := by
      apply visits_invariant Ended (fun _ _ => True) _ hended (fun _ _ => trivial) visit hvisit
      intro before input hbefore _
      obtain ⟨text, heq⟩ := call_of_ended parse input.1 input.2 hbefore
      rw [step, heq]
      exact hbefore
    obtain ⟨text, heq⟩ := call_of_ended parse visit.2.1 visit.2.2 hvisited
    rw [heq]

/-- The accepted epochs are among the issued ones and distinct, and an open session is in
the last of them. -/
structure Tracked (session : ControlSession) (epochs : List StopEpoch) : Prop where
  issued : ∀ epoch ∈ epochs, epoch ∈ session.issuedEpochs
  nodup : epochs.Nodup
  last : session.poisoned = false → epochs.getLast? = some session.epoch

theorem Tracked.concat {epochs : List StopEpoch} {epoch : StopEpoch} {after : ControlSession}
    (htracked : Tracked session epochs) (hfresh : epoch ∉ session.issuedEpochs)
    (hissued : after.issuedEpochs = epoch :: session.issuedEpochs)
    (hepoch : after.epoch = epoch) : Tracked after (epochs ++ [epoch]) where
  issued := by
    intro other hother
    rw [hissued]
    simp only [List.mem_append, List.mem_singleton] at hother
    cases hother with
    | inl hold => exact List.mem_cons_of_mem _ (htracked.issued other hold)
    | inr hnew => exact hnew ▸ List.mem_cons_self
  nodup := by
    apply htracked.nodup.append (List.nodup_singleton epoch)
    intro other hold hnew
    rw [List.mem_singleton] at hnew
    exact hfresh (hnew ▸ htracked.issued other hold)
  last := by
    intro _
    rw [List.getLast?_concat, hepoch]

theorem Tracked.step {epochs : List StopEpoch} (htracked : Tracked session epochs)
    (input : Input) :
    Tracked (SkControl.step parse session input)
      (epochs ++ (accepted parse (session, input)).toList) := by
  have hcalls := call_calls parse session input.1 input.2
  unfold SkControl.step accepted
  dsimp only
  generalize session.call parse input.1 input.2 = turn at hcalls
  cases hcalls with
  | silent text =>
    simp only [Option.toList_none, List.append_nil]
    exact htracked
  | rejected failure =>
    simp only [Option.toList_none, List.append_nil]
    exact ⟨htracked.issued, htracked.nodup, fun h => Bool.noConfusion h⟩
  | refused response error =>
    simp only [Option.toList_none, List.append_nil]
    exact ⟨htracked.issued, htracked.nodup, htracked.last⟩
  | kept response value capabilities poisoned result hwrites _ _ _ hkept =>
    have hnone : (match result with
        | .ok _ => if input.1.transition then some session.epoch else none
        | .error _ => none) = none := by
      cases result with
      | ok _ => simp [hkept]
      | error _ => rfl
    simp only [hnone, Option.toList_none, List.append_nil]
    exact ⟨htracked.issued, htracked.nodup, fun _ => htracked.last hwrites.unpoisoned⟩
  | moved response value phase hwrites _ _ _ hmoved hfresh =>
    simp only [hmoved, if_true, Option.toList_some]
    exact htracked.concat hfresh rfl rfl
  | altered response value text =>
    simp only [Option.toList_none, List.append_nil]
    refine ⟨fun epoch hepoch => ?_, htracked.nodup, fun h => Bool.noConfusion h⟩
    exact List.mem_cons_of_mem _ (htracked.issued epoch hepoch)

theorem Tracked.run (hstart : Tracked session [session.epoch]) (inputs : List Input) :
    Tracked (Library.run (SkControl.step parse) session inputs)
      (acceptedEpochs parse session inputs) := by
  induction inputs using List.reverseRecOn with
  | nil => exact hstart
  | append_singleton inputs input ih =>
    have hepochs : acceptedEpochs parse session (inputs ++ [input]) =
        acceptedEpochs parse session inputs ++
          (accepted parse (Library.run (SkControl.step parse) session inputs, input)).toList := by
      simp only [acceptedEpochs, visits_append, List.filterMap_append, List.cons_append, visits]
      cases hepoch : accepted parse (Library.run (SkControl.step parse) session inputs, input) <;>
        simp [hepoch]
    rw [run_concat, hepochs]
    exact ih.step input

theorem greet_issued {selector : TargetSelector} {hello : Hello}
    (h : ControlSession.greet selector hello = .ok session) :
    session.issuedEpochs = [session.epoch] := by
  simp only [ControlSession.greet, bind, Except.bind] at h
  split at h
  · cases h
  split at h
  · cases h
  split at h
  · cases h
  cases h
  rfl

theorem openLines_issued {parseHello : String → Option Hello} {selector : TargetSelector}
    {count : Nat} {lines : List (Option String)} {front skipped : List String}
    (h : ControlSession.openLines parseHello selector count lines front =
      .ok (session, skipped)) :
    session.issuedEpochs = [session.epoch] := by
  fun_induction ControlSession.openLines parseHello selector count lines front with
  | case7 count front line ready hready heq helloLine rest hello hhello opened hgreet =>
    cases h
    exact greet_issued hgreet
  | case9 => exact (by assumption : _ → _) h
  | _ => cases h

theorem tracked_open {parseHello : String → Option Hello} {selector : TargetSelector}
    {lines : List (Option String)} {skipped : List String}
    (hopen : ControlSession.openSelected parseHello selector lines = .ok (session, skipped)) :
    Tracked session [session.epoch] := by
  have hissued : session.issuedEpochs = [session.epoch] := by
    unfold ControlSession.openSelected at hopen
    split at hopen
    · cases hopen
    · exact openLines_issued hopen
  exact ⟨fun epoch hepoch => hissued ▸ hepoch, List.nodup_singleton _, fun _ => rfl⟩

variable {property : ControlSession → Operation → ReplyValue → Prop} {reply : Option Response}

theorem carries_iff {value : ReplyValue} (hreply : ¬ Misframed session operation reply)
    (hresponse : reply = some response) (houtcome : response.outcome = .ok value) :
    Carries session operation property reply ↔ property session operation value := by
  constructor
  · rintro ⟨-, other, carried, hother, hcarried, hproperty⟩
    rw [hresponse, Option.some.injEq] at hother
    rw [← hother, houtcome, Outcome.ok.injEq] at hcarried
    exact hcarried ▸ hproperty
  · exact fun hproperty => ⟨hreply, response, value, hresponse, houtcome, hproperty⟩

theorem not_carries_of_error {error : ProviderError} (hresponse : reply = some response)
    (houtcome : response.outcome = .error error) :
    ¬ Carries session operation property reply := by
  rintro ⟨-, other, carried, hother, hcarried, -⟩
  rw [hresponse, Option.some.injEq] at hother
  rw [← hother, houtcome] at hcarried
  cases hcarried

/-- After a reply that has to be rejected the session has ended, unless the method drops
the value unguarded and there are request numbers left. -/
theorem ended_iff_of_faulty (hwritten : (session.call parse operation line).written.isSome)
    (hfaulty : Faulty session operation (replyOf parse line)) :
    Ended (session.call parse operation line).session ↔
      ¬ Carries session operation Unguarded (replyOf parse line) ∨
        2 ^ 64 ≤ session.nextId + 2 := by
  have hcalls := call_calls parse session operation line
  generalize session.call parse operation line = turn at hcalls hwritten
  cases hcalls with
  | silent text => cases hwritten
  | rejected failure hwrites hreply hfailure =>
    exact iff_of_true (.inl rfl) (.inl fun hcarries => hcarries.1 hreply)
  | refused response error hwrites hreply hresponse houtcome =>
    cases hfaulty with
    | inl hmisframed => exact absurd hmisframed hreply
    | inr hcarries => exact absurd hcarries (not_carries_of_error hresponse houtcome)
  | kept response value capabilities poisoned result hwrites hreply hresponse houtcome hkept
      hresult hpoisoned =>
    have hvalue : Contradicts session operation value := by
      cases hfaulty with
      | inl hmisframed => exact absurd hmisframed hreply
      | inr hcarries => exact (carries_iff hreply hresponse houtcome).mp hcarries
    rw [carries_iff hreply hresponse houtcome, ← hpoisoned hvalue]
    exact Iff.rfl
  | moved response value phase hwrites hreply hresponse houtcome hmoved hfresh hvalue =>
    cases hfaulty with
    | inl hmisframed => exact absurd hmisframed hreply
    | inr hcarries =>
      exact absurd ((carries_iff hreply hresponse houtcome).mp hcarries) hvalue
  | altered response value text hwrites hreply hresponse houtcome hmoved hvalue =>
    rw [carries_iff hreply hresponse houtcome]
    exact iff_of_true (.inl rfl) (.inl hvalue)

theorem unmoved_of_refused
    (hrefused : (∃ error, (session.call parse operation line).result = .error (.refusal error)) ∨
      (session.call parse operation line).written = none) :
    (session.call parse operation line).session.phase = session.phase ∧
      (session.call parse operation line).session.epoch = session.epoch := by
  have hcalls := call_calls parse session operation line
  generalize session.call parse operation line = turn at hcalls hrefused
  cases hcalls with
  | silent text => exact ⟨rfl, rfl⟩
  | rejected failure => exact ⟨rfl, rfl⟩
  | refused response error => exact ⟨rfl, rfl⟩
  | kept response value capabilities poisoned result => exact ⟨rfl, rfl⟩
  | moved response value phase =>
    cases hrefused with
    | inl hrefusal => exact nomatch hrefusal
    | inr hnone => cases hnone
  | altered response value text =>
    cases hrefused with
    | inl hrefusal => exact nomatch hrefusal
    | inr hnone => cases hnone

theorem written_request {request : Request}
    (hwritten : (session.call parse operation line).written = some request) :
    request = session.request operation ∧ Writes session operation := by
  have hcalls := call_calls parse session operation line
  generalize session.call parse operation line = turn at hcalls hwritten
  cases hcalls with
  | silent text => cases hwritten
  | rejected failure hwrites => exact ⟨(Option.some.inj hwritten).symm, hwrites⟩
  | refused response error hwrites => exact ⟨(Option.some.inj hwritten).symm, hwrites⟩
  | kept response value capabilities poisoned result hwrites =>
    exact ⟨(Option.some.inj hwritten).symm, hwrites⟩
  | moved response value phase hwrites => exact ⟨(Option.some.inj hwritten).symm, hwrites⟩
  | altered response value text hwrites => exact ⟨(Option.some.inj hwritten).symm, hwrites⟩

/-- In every run of a session, whatever the provider answers: a register request is
written only while the target is held and under the last accepted epoch, accepted epochs
are distinct, a refused call changes neither phase nor epoch, and a reply that has to be
rejected is the end of all writing exactly when its value is not one of those the methods
drop unguarded (or the request numbers run out there). -/
theorem client_keeps_its_turn {parseHello : String → Option Hello} {selector : TargetSelector}
    {lines : List (Option String)} {skipped : List String}
    (hopen : ControlSession.openSelected parseHello selector lines = .ok (session, skipped))
    (inputs : List Input) (operation : Operation) (line : Option String) :
    let before := run (step parse) session inputs
    let turn := before.call parse operation line
    (∀ request, turn.written = some request → request.operation.registerAccess = true →
      before.phase ≠ .running ∧
        (acceptedEpochs parse session inputs).getLast? = some request.epoch) ∧
    (acceptedEpochs parse session inputs).Nodup ∧
    ((∃ error, turn.result = .error (.refusal error)) ∨ turn.written = none →
      turn.session.phase = before.phase ∧ turn.session.epoch = before.epoch ∧
        turn.session.held = before.held) ∧
    (turn.written.isSome → Faulty before operation (replyOf parse line) →
      (SilentFrom parse turn.session ↔
        ¬ Carries before operation Unguarded (replyOf parse line) ∨
          2 ^ 64 ≤ before.nextId + 2)) := by
  intro before turn
  have htracked : Tracked before (acceptedEpochs parse session inputs) :=
    (tracked_open hopen).run inputs
  refine ⟨?_, htracked.nodup, ?_, ?_⟩
  · intro request hwritten haccess
    obtain ⟨rfl, hwrites⟩ := written_request hwritten
    exact ⟨hwrites.held haccess, htracked.last hwrites.unpoisoned⟩
  · intro hrefused
    obtain ⟨hphase, hepoch⟩ := unmoved_of_refused hrefused
    refine ⟨hphase, hepoch, ?_⟩
    unfold ControlSession.held
    rw [show turn.session.phase = before.phase from hphase]
  · intro hwritten hfaulty
    rw [silentFrom_iff]
    exact ended_iff_of_faulty hwritten hfaulty

namespace Sample

def target : TargetIdentity where
  vmId := "00000000-0000-0000-0000-000000000001"
  partitionId := 3
  vp := 0
  vtl := 1
  expectedCr3 := 0x1000

def selector : TargetSelector where
  vmId := "00000000-0000-0000-0000-000000000001"
  partitionId := 3
  vp := 0
  expectedCr3 := none

def capabilities : Capabilities where
  capabilities := Capabilities.required
  readableRegisters := [.rip]
  writableRegisters := [.rip]
  maxRegistersPerRequest := 1
  requiresStopEpoch := true
  writesWhileRunning := false

def event (vector : Nat) (reason : StopReason) : HeldEvent where
  messageType := 0x01000002
  vector := vector
  vp := 0
  vtl := 1
  cpl := 0
  dispatcherContext := 0x40
  advanceInstructionPointer := false
  reason := reason

/-- The provider's JSON for `target`. -/
def targetText : String :=
  "\x7b\"vm_id\":\"00000000-0000-0000-0000-000000000001\",\"partition_i" ++
      "d\":\"0x0000000000000003\",\"vp\":0,\"vtl\":1,\"expected_cr3\":\"0x000" ++
      "0000000001000\"\x7d"

def helloText : String :=
  "\x7b\"protocol\":2,\"target\":" ++ targetText ++ ",\"epoch\":\"epoch-0000000001\"\x7d"

def eventText (vector reason : String) : String :=
  "\x7b\"message_type\":\"0x0000000001000002\",\"vector\":" ++ vector ++
    ",\"vp\":0,\"vtl\":1,\"cpl\":0,\"dispatcher_context\":\"0x0000000000000040\"," ++
    "\"advance_instruction_pointer\":false,\"reason\":\x7b\"reason\":\"" ++ reason ++ "\"\x7d\x7d"

def capabilitiesText : String :=
  "\x7b\"kind\":\"capabilities\",\"value\":\x7b\"capabilities\":[\"begin_arm\",\"finish_arm\"," ++
    "\"publish_stop\",\"held_event\",\"read_registers\",\"write_registers\",\"release\"]," ++
    "\"readable_registers\":[\"rip\"],\"writable_registers\":[\"rip\"]," ++
    "\"max_registers_per_request\":1,\"requires_stop_epoch\":true," ++
    "\"writes_while_running\":false\x7d\x7d"

def responseText (id epoch value : String) : String :=
  "\x7b\"protocol\":2,\"id\":" ++ id ++ ",\"target\":" ++ targetText ++ ",\"epoch\":\"epoch-000000000" ++
    epoch ++ "\",\"outcome\":\x7b\"status\":\"ok\",\"value\":" ++ value ++ "\x7d\x7d"

def negotiated : String := responseText "1" "1" capabilitiesText

def published : String :=
  responseText "2" "2"
    ("\x7b\"kind\":\"stop_published\",\"event\":" ++ eventText "1" "debug_exception" ++ "\x7d")

def contradiction : String :=
  responseText "3" "2"
    ("\x7b\"kind\":\"held_event\",\"event\":" ++ eventText "3" "breakpoint_exception" ++ "\x7d")

def replyWith (id : Nat) (epoch : String) (value : ReplyValue) : Response where
  protocol := 2
  id := id
  target := target
  epoch := ⟨epoch⟩
  outcome := .ok value

def read (line : String) : Option Response :=
  if line = negotiated then some (replyWith 1 "epoch-0000000001" (.capabilities capabilities))
  else if line = published then
    some (replyWith 2 "epoch-0000000002" (.stopPublished (event 1 .debugException)))
  else if line = contradiction then
    some (replyWith 3 "epoch-0000000002" (.heldEvent (event 3 .breakpointException)))
  else none

def parseHello (line : String) : Option Hello :=
  if line = helloText then some ⟨2, target, ⟨"epoch-0000000001"⟩⟩ else none

def opened : ControlSession where
  target := target
  epoch := ⟨"epoch-0000000001"⟩
  issuedEpochs := [⟨"epoch-0000000001"⟩]
  nextId := 1
  capabilities := none
  phase := .running
  poisoned := false

def inputs : List Input :=
  [(.capabilities, some negotiated), (.publishStop (event 1 .debugException), some published)]

theorem opens : ControlSession.openSelected parseHello selector
    [some "windbg-mcp-sk-control/2", some helloText] = .ok (opened, []) := by
  decide +kernel

def stopped : ControlSession where
  target := target
  epoch := ⟨"epoch-0000000002"⟩
  issuedEpochs := [⟨"epoch-0000000002"⟩, ⟨"epoch-0000000001"⟩]
  nextId := 3
  capabilities := some capabilities
  phase := .stopped (event 1 .debugException)
  poisoned := false

theorem runs : run (step read) opened inputs = stopped := by
  decide +kernel

end Sample

/-- A vector-3 reply to `held_event` contradicts the held vector-1 event, the capability
check rejects it first, and the register read after it is written all the same. -/
theorem contradiction_leaves_session_open :
    let before := run (step Sample.read) Sample.opened Sample.inputs
    let turn := before.call Sample.read .heldEvent (some Sample.contradiction)
    turn.written.isSome = true ∧
      turn.result = .error (.said "provider did not advertise BreakpointEvents") ∧
      Faulty before .heldEvent (replyOf Sample.read (some Sample.contradiction)) ∧
      (turn.session.call Sample.read (.readRegisters [.rip]) none).written.isSome = true := by
  intro before turn
  have hbefore : before = Sample.stopped := Sample.runs
  have hreply : replyOf Sample.read (some Sample.contradiction) =
      some (Sample.replyWith 3 "epoch-0000000002"
        (.heldEvent (Sample.event 3 .breakpointException))) := by decide +kernel
  have hturn : turn = Sample.stopped.call Sample.read .heldEvent (some Sample.contradiction) := by
    rw [← hbefore]
  rw [hturn, hbefore, hreply]
  refine ⟨by decide +kernel, by decide +kernel, .inr ⟨?_, _, _, rfl, rfl, ?_⟩, by decide +kernel⟩
  · simp [Misframed, Sample.replyWith, Sample.stopped, protocolVersion, Operation.expects,
      ReplyValue.changesEpoch]
  · simp [Contradicts, ControlSession.held, Sample.stopped, Sample.event]

/-- In the same session a register read is written under the second epoch, and the missing
answer to it is the end of all writing. -/
theorem client_keeps_its_turn_sample :
    let before := run (step Sample.read) Sample.opened Sample.inputs
    let turn := before.call Sample.read (.readRegisters [.rip]) none
    turn.written.isSome = true ∧
      (∀ request, turn.written = some request → request.operation.registerAccess = true →
        before.phase ≠ .running ∧
          (acceptedEpochs Sample.read Sample.opened Sample.inputs).getLast? =
            some request.epoch) ∧
      (acceptedEpochs Sample.read Sample.opened Sample.inputs).Nodup ∧
      SilentFrom Sample.read turn.session := by
  obtain ⟨hturn, hdistinct, -, hsilent⟩ :=
    client_keeps_its_turn Sample.opens Sample.inputs (.readRegisters [.rip]) none
  have hwritten : ((run (step Sample.read) Sample.opened Sample.inputs).call Sample.read
      (.readRegisters [.rip]) none).written.isSome = true := by
    rw [Sample.runs]
    decide +kernel
  refine ⟨hwritten, hturn, hdistinct, ?_⟩
  apply (hsilent hwritten (.inl trivial)).mpr
  exact .inl fun hcarries => hcarries.1 trivial

end WindbgMcp.SkControl
