import WindbgMcp.SkControl.GuardedWrites
import WindbgMcp.SkControl.Turns

/-! The two ends of the control protocol on one line.  They agree on target, epoch, phase and
held event for as long as no transition is left without an epoch, and a provider refuses an
agreeing client on four grounds only. -/
namespace WindbgMcp.SkControl
open Library Fallible

structure Link where
  client : ControlSession
  provider : ControlProvider

/-- One call, with all that neither end decides: what the registers hold by then, the
hypervisor, the random number generator, and whether the answer arrives. -/
structure Round where
  operation : Operation
  machine : Machine
  world : World
  token : Except String String
  delivered : Bool

namespace Link

def asked (link : Link) (round : Round) : Option Request :=
  (link.client.call (fun _ => none) round.operation none).written

def handled (link : Link) (round : Round) (request : Request) : ControlProvider.Handled :=
  link.provider.serve round.world round.token request round.machine

def turn (link : Link) (round : Round) : Turn Answer :=
  match link.asked round with
  | none => link.client.call (fun _ => none) round.operation none
  | some request =>
    link.client.call (fun _ => some ((link.handled round request).response request.id))
      round.operation (if round.delivered then some "" else none)

def step (link : Link) (round : Round) : Link where
  client := (link.turn round).session
  provider :=
    match link.asked round with
    | none => link.provider
    | some request => (link.handled round request).provider

end Link

def ControlProvider.view (provider : ControlProvider) : Option SkControl.Phase :=
  match provider.phase, provider.event with
  | .running, _ => some .running
  | .arming, _ => some .arming
  | .stopped, some event => some (.stopped event)
  | .stopped, none => none

structure Matches (client : ControlSession) (provider : ControlProvider) : Prop where
  target : client.target = provider.target
  epoch : client.epoch = provider.epoch
  phase : provider.view = some client.phase
  capabilities : client.capabilities = none ∨ client.capabilities = some providerCapabilities
  valid : ∀ event, client.held = some event → event.validate client.target = .ok ()

def Agrees (link : Link) : Prop :=
  link.client.poisoned = true ∨ Matches link.client link.provider

def Operation.enters : Operation → Option ControlProvider.Phase
  | .beginArm => some .arming
  | .finishArm | .release => some .running
  | .publishStop _ => some .stopped
  | _ => none

/-- The provider moves, has no epoch to move to, and the client hears of the failure. -/
structure Slips (link : Link) (round : Round) : Prop where
  asked : (link.asked round).isSome
  delivered : round.delivered = true
  epochless : ∃ phase, round.operation.enters = some phase ∧
    (newEpoch phase round.token).isOk = false
  published : ∀ event, round.operation = .publishStop event →
    (link.provider.checkCr3 round.world round.machine).1.isOk = true

def Grounds (link : Link) (round : Round) (error : ProviderError) : Prop :=
  error.code = .provider ∨
    (error.code = .wrongTarget ∧ ∃ event, round.operation = .publishStop event) ∨
    (error.code = .guardMismatch ∧ ∃ writes, round.operation = .writeRegisters writes) ∨
    error.code = .running ∧ round.operation = .activeVtl ∧ link.client.phase ≠ .running

/-! ### The client's call, as its checks and what it makes of a value -/

namespace ControlSession

def checks (session : ControlSession) : Operation → Except String Unit
  | .capabilities => .ok ()
  | .beginArm => do
    session.requireCapability .beginArm
    if session.phase ≠ .running then .error "begin_arm requires running state"
  | .finishArm => do
    session.requireCapability .finishArm
    if session.phase ≠ .arming then .error "finish_arm requires arming state"
  | .publishStop event => do
    session.requireCapability .publishStop
    session.requireVector event
    if session.phase ≠ .running then .error "cannot publish a second event while one is held"
    event.validate session.target
  | .heldEvent => do
    session.requireStopped
    session.requireCapability .heldEvent
  | .readRegisters registers => do
    session.requireRegisterStop
    session.requireCapability .readRegisters
    session.validateRegisterNames registers false
  | .writeRegisters writes => do
    session.requireRegisterStop
    session.requireCapability .writeRegisters
    if writes.isEmpty then .error "write_registers requires at least one guarded write"
    session.validateRegisterNames (writes.map RegisterWrite.name) true
  | .activeVtl => session.requireCapability .activeVtl
  | .release => do
    session.requireStopped
    session.requireCapability .release

def finish : Operation → ControlSession → ReplyValue → ControlSession × Except Failure Answer
  | .capabilities => checkCapabilities
  | .beginArm => checkMoved .armBegun .arming "begin_arm"
  | .finishArm => checkMoved .armFinished .running "finish_arm"
  | .publishStop event => checkPublished event
  | .heldEvent => checkHeld
  | .readRegisters registers => checkRead registers
  | .writeRegisters writes => checkWritten writes
  | .activeVtl => checkActiveVtl
  | .release => checkMoved .released .running "release"

end ControlSession

variable {client : ControlSession} {operation : Operation} {response : Response} {link : Link}
  {round : Round}

theorem call_eq_guarded (parse : String → Option Response) (client : ControlSession)
    (operation : Operation) (line : Option String) :
    client.call parse operation line =
      client.guarded parse (client.checks operation) operation line
        (ControlSession.finish operation) := by
  cases operation <;> rfl

theorem written_eq_some {parse : String → Option Response} {line : Option String}
    {request : Request} (h : (client.call parse operation line).written = some request) :
    client.checks operation = .ok () ∧ request = client.request operation ∧
      Writes client operation := by
  refine ⟨?_, written_request h⟩
  rw [call_eq_guarded] at h
  cases hchecks : client.checks operation with
  | error text => simp [ControlSession.guarded, hchecks] at h
  | ok _ => rfl

/-- The answer to a written request is judged, and its value is the method's. -/
theorem call_answered (hchecks : client.checks operation = .ok ())
    (hwrites : Writes client operation) (hanswers : response.Answers client) :
    let judged := ControlSession.judge
      { client with nextId := client.nextId + 1, poisoned := true } operation response
    client.call (fun _ => some response) operation (some "") =
      match judged with
      | (after, .error failure) => ⟨after, some (client.request operation), .error failure⟩
      | (after, .ok value) =>
        ⟨(ControlSession.finish operation after value).1, some (client.request operation),
          (ControlSession.finish operation after value).2⟩ := by
  obtain ⟨hprotocol, hid, htarget⟩ := hanswers
  have hfits := hwrites.fits
  intro judged
  rw [call_eq_guarded]
  unfold ControlSession.guarded
  have hexchange : client.exchange (fun _ => some response) operation (some "") =
      ⟨judged.1, some (client.request operation), judged.2⟩ := by
    simp only [ControlSession.exchange, hwrites.unpoisoned, Bool.false_eq_true, if_false,
      if_neg (Nat.not_le.mpr hfits), ControlSession.accept, hprotocol, hid, htarget, ne_eq,
      not_true_eq_false, or_self]
    rfl
  simp only [hchecks, hexchange]
  rcases judged with ⟨after, outcome⟩
  cases outcome <;> rfl

def ControlSession.next (client : ControlSession) : ControlSession :=
  { client with nextId := client.nextId + 1, poisoned := false }

section
variable (hchecks : client.checks operation = .ok ()) (hwrites : Writes client operation)
  (hanswers : response.Answers client)
include hchecks hwrites hanswers

theorem call_refused {error : ProviderError} (houtcome : response.outcome = .error error)
    (hepoch : response.epoch = client.epoch) :
    client.call (fun _ => some response) operation (some "") =
      ⟨client.next, some (client.request operation), .error (.refusal error)⟩ := by
  rw [call_answered hchecks hwrites hanswers]
  simp [ControlSession.judge, houtcome, hepoch, ControlSession.next]

theorem call_kept {value : ReplyValue} (houtcome : response.outcome = .ok value)
    (hepoch : response.epoch = client.epoch) (hexpects : operation.expects value = true)
    (hchanges : value.changesEpoch = false) :
    client.call (fun _ => some response) operation (some "") =
      ⟨(ControlSession.finish operation client.next value).1, some (client.request operation),
        (ControlSession.finish operation client.next value).2⟩ := by
  rw [call_answered hchecks hwrites hanswers]
  simp [ControlSession.judge, houtcome, hepoch, hexpects, hchanges, ControlSession.next]

theorem call_moved {value : ReplyValue} (houtcome : response.outcome = .ok value)
    (hexpects : operation.expects value = true) (hchanges : value.changesEpoch = true)
    (hvalid : StopEpoch.new response.epoch.value = .ok response.epoch)
    (hfresh : response.epoch ∉ client.issuedEpochs) :
    let after := { client.next with
      issuedEpochs := response.epoch :: client.issuedEpochs
      epoch := response.epoch }
    client.call (fun _ => some response) operation (some "") =
      ⟨(ControlSession.finish operation after value).1, some (client.request operation),
        (ControlSession.finish operation after value).2⟩ := by
  rw [call_answered hchecks hwrites hanswers]
  simp [ControlSession.judge, houtcome, hexpects, hchanges, hvalid, hfresh, ControlSession.next]

theorem call_repeated {value : ReplyValue} (houtcome : response.outcome = .ok value)
    (hexpects : operation.expects value = true) (hchanges : value.changesEpoch = true)
    (hissued : response.epoch ∈ client.issuedEpochs) :
    (client.call (fun _ => some response) operation (some "")).session.poisoned = true := by
  rw [call_answered hchecks hwrites hanswers]
  simp [ControlSession.judge, houtcome, hexpects, hchanges, hissued]

end

/-! ### What the provider answers a client that agrees with it -/

def Unverified (operation : Operation) (value : ReplyValue) : Prop :=
  ∃ writes values, operation = .writeRegisters writes ∧ value = .registersWritten values ∧
    ∃ value ∈ values, value.status ≠ 0

def ReplyValue.answer : ReplyValue → Answer
  | capabilities value => .capabilities value
  | heldEvent event => .event event
  | registers values | registersWritten values => .values values
  | activeVtl vtl => .vtl vtl
  | armBegun | armFinished | stopPublished _ | released => .done

theorem answer_of_changesEpoch {value : ReplyValue} (h : value.changesEpoch = true) :
    value.answer = .done := by
  cases value with
  | armBegun | armFinished | stopPublished | released => rfl
  | _ => cases h

def Accepts (client : ControlSession) (operation : Operation) (value : ReplyValue) : Prop :=
  ∃ capabilities poisoned result,
    ControlSession.finish operation client.next value =
      ({ client.next with capabilities := capabilities, poisoned := poisoned }, result) ∧
    (capabilities = client.capabilities ∨ capabilities = some providerCapabilities) ∧
    (poisoned = false → result = .ok value.answer) ∧
    (poisoned = true → Unverified operation value)

inductive Served (link : Link) (round : Round) : ControlProvider.Handled → Prop
  | kept (machine : Machine) (value : ReplyValue)
      (hexpects : round.operation.expects value = true) (hchanges : value.changesEpoch = false)
      (haccepts : Accepts link.client round.operation value) (hslips : ¬ Slips link round) :
    Served link round ⟨link.provider, machine, .ok value⟩
  | moved (provider : ControlProvider) (machine : Machine) (value : ReplyValue) (shown : Phase)
      (hexpects : round.operation.expects value = true) (hchanges : value.changesEpoch = true)
      (htarget : provider.target = link.provider.target)
      (hepoch : StopEpoch.new provider.epoch.value = .ok provider.epoch)
      (hview : provider.view = some shown)
      (hvalid : ∀ event, shown = .stopped event → event.validate link.client.target = .ok ())
      (hfinish : ∀ after, ControlSession.finish round.operation after value =
        ({ after with phase := shown }, .ok .done)) (hslips : ¬ Slips link round) :
    Served link round ⟨provider, machine, .ok value⟩
  | slipped (provider : ControlProvider) (machine : Machine) (error : ProviderError)
      (htarget : provider.target = link.provider.target)
      (hepoch : provider.epoch = link.provider.epoch)
      (hview : provider.view ≠ some link.client.phase) (hcode : error.code = .provider)
      (hslips : round.delivered = true → Slips link round) :
    Served link round ⟨provider, machine, .error error⟩
  | refused (machine : Machine) (error : ProviderError) (hgrounds : Grounds link round error)
      (hslips : ¬ Slips link round) :
    Served link round ⟨link.provider, machine, .error error⟩

theorem not_slips_of_stays (h : round.operation.enters = none) : ¬ Slips link round := by
  rintro ⟨-, -, ⟨phase, hphase, -⟩, -⟩
  rw [h] at hphase
  cases hphase

theorem newEpoch_valid {phase : ControlProvider.Phase} {token : Except String String}
    {epoch : StopEpoch}
    (h : newEpoch phase token = .ok epoch) : StopEpoch.new epoch.value = .ok epoch := by
  obtain ⟨text, -, hnew⟩ := bind_eq_ok.mp h
  have hsame := hnew
  unfold StopEpoch.new at hsame
  split at hsame
  · cases hsame
  · cases hsame
    exact hnew

/-- An operation that moves the provider, once nothing else stands against it. -/
theorem served_enter {phase : ControlProvider.Phase} {event : Option HeldEvent} {machine : Machine}
    {value : ReplyValue} (shown : Phase) (hasked : (link.asked round).isSome)
    (henters : round.operation.enters = some phase)
    (hexpects : round.operation.expects value = true) (hchanges : value.changesEpoch = true)
    (hview : ∀ epoch, ControlProvider.view { link.provider with
      phase := phase, event := event, epoch := epoch } = some shown)
    (hmoves : shown ≠ link.client.phase)
    (hvalid : ∀ event, shown = .stopped event → event.validate link.client.target = .ok ())
    (hfinish : ∀ after, ControlSession.finish round.operation after value =
      ({ after with phase := shown }, .ok .done))
    (hpublished : ∀ event, round.operation = .publishStop event →
      (link.provider.checkCr3 round.world round.machine).1.isOk = true) :
    Served link round (link.provider.enter phase event round.token machine value) := by
  unfold ControlProvider.enter
  cases hepoch : newEpoch phase round.token with
  | ok epoch =>
    refine .moved _ machine value shown hexpects hchanges rfl (newEpoch_valid hepoch)
      (hview epoch) hvalid hfinish ?_
    rintro ⟨-, -, ⟨other, hother, hfails⟩, -⟩
    rw [henters, Option.some.injEq] at hother
    rw [← hother, hepoch] at hfails
    cases hfails
  | error text =>
    refine .slipped _ machine _ rfl rfl ?_ rfl fun hdelivered =>
      ⟨hasked, hdelivered, ⟨phase, henters, by rw [hepoch]; rfl⟩, hpublished⟩
    rw [hview]
    exact fun h => hmoves (Option.some.inj h)

section
variable {provider : ControlProvider} {event : HeldEvent}

theorem view_eq_running : provider.view = some .running ↔ provider.phase = .running := by
  unfold ControlProvider.view
  split <;> simp_all

theorem view_eq_arming : provider.view = some .arming ↔ provider.phase = .arming := by
  unfold ControlProvider.view
  split <;> simp_all

theorem view_eq_stopped : provider.view = some (.stopped event) ↔
    provider.phase = .stopped ∧ provider.event = some event := by
  unfold ControlProvider.view
  split <;> simp_all

end

theorem providerCapabilities_valid : providerCapabilities.validate = .ok () := by
  decide +kernel

theorem capabilities_of_required {provider : ControlProvider} {capability : Capability}
    (h : Matches client provider) (hrequired : client.requireCapability capability = .ok ()) :
    client.capabilities = some providerCapabilities := by
  refine h.capabilities.resolve_left fun hnone => ?_
  rw [ControlSession.requireCapability, hnone] at hrequired
  cases hrequired

theorem held_of_stopped (h : client.requireStopped = .ok ()) :
    ∃ event, client.phase = .stopped event := by
  unfold ControlSession.requireStopped ControlSession.held at h
  cases hphase : client.phase with
  | stopped event => exact ⟨event, rfl⟩
  | running => simp [hphase] at h
  | arming => simp [hphase] at h

/-- What the client has checked of the names of a request. -/
theorem names_ok {names : List RegisterName} {writes : Bool}
    (hcapabilities : client.capabilities = some providerCapabilities)
    (h : client.validateRegisterNames names writes = .ok ()) :
    names ≠ [] ∧ names.length ≤ 32 ∧ names.Nodup ∧
      ∀ name ∈ names, name ∈ if writes then providerCapabilities.writableRegisters
        else providerCapabilities.readableRegisters := by
  simp only [ControlSession.validateRegisterNames, unique, hcapabilities, bind, Except.bind] at h
  split at h
  · cases h
  rename_i hsize
  split at h
  · cases h
  rename_i hunique
  split at hunique
  · rename_i hnodup
    split at h
    · cases h
    split at h
    · cases h
    rename_i hfind
    have hallowed := List.find?_eq_none.mp hfind
    simp only [List.isEmpty_iff, not_or, Nat.not_lt] at hsize
    refine ⟨hsize.1, hsize.2, hnodup, ?_⟩
    intro name hname
    simpa using hallowed name hname
  · cases hunique

theorem mem_writableRegisters {name : RegisterName} :
    name ∈ providerCapabilities.writableRegisters ↔ name.writable = true := by
  simp [providerCapabilities, mem_readable]

/-! ### The values of the registers a client asks for -/

section
variable {provider : ControlProvider} {machine : Machine} {names : List RegisterName}
  {values : List RegisterValue}

theorem validateValues_ok (h : Reports provider machine names values) (hnodup : names.Nodup) :
    validateValues names values = .ok () := by
  have hnames : values.map RegisterValue.name = names := by
    clear hnodup
    induction h with
    | nil => rfl
    | cons hvalue _ ih => rw [List.map_cons, hvalue.1, ih]
  have hlength : names.length = values.length := by rw [← hnames, List.length_map]
  simp [validateValues, unique, hlength, hnames, hnodup, bind, Except.bind, pure, Except.pure]

/-- Writes that were made are verified, unless a read behind them was refused. -/
theorem validateGuardedWrites_ok {writes : List RegisterWrite}
    (h : Reports provider machine (writes.map RegisterWrite.name) values)
    (hwritten : ∀ write ∈ writes, provider.holds machine write.name = (write.value, 0))
    (hstatus : ∀ value ∈ values, value.status = 0) :
    validateGuardedWrites writes values = .ok () := by
  have hnone : ∀ pair ∈ writes.zip values,
      ¬ (pair.2.status ≠ 0 ∨ pair.2.low ≠ pair.1.value) := by
    induction writes generalizing values with
    | nil => exact List.forall_mem_nil _
    | cons write writes ih =>
      obtain ⟨hwrite, hwrites⟩ := List.forall_mem_cons.mp hwritten
      cases h with
      | cons hvalue hvalues =>
        obtain ⟨hzero, hzeros⟩ := List.forall_mem_cons.mp hstatus
        have hlow := hvalue.2 hzero
        rw [List.zip_cons_cons, List.forall_mem_cons]
        exact ⟨by simp [hzero, hlow, hwrite], ih hvalues hwrites hzeros⟩
  unfold validateGuardedWrites
  rw [List.find?_eq_none.mpr fun pair hpair => by simpa using hnone pair hpair]

end

theorem accepts_same {value : ReplyValue}
    (h : ControlSession.finish operation client.next value = (client.next, .ok value.answer)) :
    Accepts client operation value :=
  ⟨client.capabilities, false, .ok value.answer, h, .inl rfl, fun _ => rfl, nofun⟩

/-- The values read behind writes that were made. -/
theorem written_accepts {provider : ControlProvider} {machine : Machine}
    {writes : List RegisterWrite} {values : List RegisterValue}
    (h : Reports provider machine (writes.map RegisterWrite.name) values)
    (hnodup : (writes.map RegisterWrite.name).Nodup)
    (hwritten : ∀ write ∈ writes, provider.holds machine write.name = (write.value, 0)) :
    Accepts client (.writeRegisters writes) (.registersWritten values) := by
  have hnames := validateValues_ok h hnodup
  by_cases hstatus : ∀ value ∈ values, value.status = 0
  · apply accepts_same
    have hverified := validateGuardedWrites_ok h hwritten hstatus
    simp only [ControlSession.finish, ControlSession.checkWritten, hnames, hverified,
      ReplyValue.answer]
  · simp only [not_forall] at hstatus
    obtain ⟨value, hvalue, hrefused⟩ := hstatus
    unfold Accepts
    simp only [ControlSession.finish, ControlSession.checkWritten, hnames]
    cases validateGuardedWrites writes values with
    | error text =>
      exact ⟨_, true, _, rfl, .inl rfl, fun h => absurd h.symm Bool.false_ne_true,
        fun _ => ⟨writes, values, rfl, rfl, value, hvalue, hrefused⟩⟩
    | ok _ =>
      exact ⟨_, false, _, rfl, .inl rfl, fun _ => rfl, fun h => absurd h Bool.false_ne_true⟩

section
variable (hmatches : Matches link.client link.provider)
include hmatches

theorem publishStop_served {event : HeldEvent} (hop : round.operation = .publishStop event)
    (hasked : (link.asked round).isSome)
    (hchecks : link.client.checks (.publishStop event) = .ok ()) :
    Served link round
      (link.provider.publishStop round.world event round.token round.machine) := by
  obtain ⟨-, -, hrest⟩ := bind_eq_ok.mp hchecks
  obtain ⟨-, -, hrest⟩ := bind_eq_ok.mp hrest
  split at hrest
  · cases hrest
  rename_i hphase
  replace hphase := not_not.mp hphase
  have hrunning := view_eq_running.mp (hphase ▸ hmatches.phase)
  have hevent : event.validate link.provider.target = .ok () := hmatches.target ▸ hrest
  unfold ControlProvider.publishStop
  simp only [hrunning, hevent, ne_eq, not_true_eq_false, if_false]
  cases hcr3 : link.provider.checkCr3 round.world round.machine with
  | mk outcome after =>
    cases outcome with
    | error error =>
      refine .refused after error ?_ fun hslips => ?_
      · unfold ControlProvider.checkCr3 at hcr3
        split at hcr3
        · cases hcr3
          exact .inl rfl
        · split at hcr3
          · cases hcr3
            exact .inr (.inl ⟨rfl, event, hop⟩)
          · split at hcr3
            · cases hcr3
              exact .inr (.inl ⟨rfl, event, hop⟩)
            · cases hcr3
      · have hpublished := hslips.published event hop
        rw [hcr3] at hpublished
        cases hpublished
    | ok _ =>
      apply served_enter (.stopped event) hasked
      · rw [hop]
        rfl
      · rw [hop]
        rfl
      · rfl
      · exact fun _ => rfl
      · rw [hphase]
        nofun
      · rintro other ⟨rfl⟩
        exact hrest
      · intro after
        simp [hop, ControlSession.finish, ControlSession.checkPublished]
      · rintro other hother
        rw [hcr3]
        rfl

theorem heldEvent_served (hop : round.operation = .heldEvent)
    (hchecks : link.client.checks .heldEvent = .ok ()) :
    Served link round (link.provider.heldEvent round.machine) := by
  obtain ⟨_, hstopped, hcapability⟩ := bind_eq_ok.mp hchecks
  obtain ⟨event, hphase⟩ := held_of_stopped hstopped
  obtain ⟨hprovider, hheld⟩ := view_eq_stopped.mp (hphase ▸ hmatches.phase)
  have hevent : link.client.held = some event := by
    simp only [ControlSession.held, hphase]
  unfold ControlProvider.heldEvent
  simp only [hprovider, hheld]
  refine .kept _ _ (by rw [hop]; rfl) rfl ?_ (not_slips_of_stays (by rw [hop]; rfl))
  rw [hop]
  apply accepts_same
  have hvector : link.client.next.requireVector event = .ok () := by
    unfold ControlSession.requireVector
    split
    · simp [ControlSession.requireCapability, ControlSession.next,
        capabilities_of_required hmatches hcapability, providerCapabilities]
    · rfl
  have hvalid : event.validate link.client.next.target = .ok () := hmatches.valid event hevent
  have hsame : link.client.next.held = some event := hevent
  simp only [ControlSession.finish, ControlSession.checkHeld, hvector, hvalid, hsame, ne_eq,
    not_true_eq_false, if_false, ReplyValue.answer]

theorem held_of_registerStop {rest : Except String Unit}
    (h : (do link.client.requireRegisterStop; rest) = Except.ok ()) :
    link.provider.phase ≠ .running := by
  intro hrunning
  have hview := view_eq_running.mpr hrunning
  rw [hmatches.phase, Option.some.injEq] at hview
  exact held_of_checks h hview

theorem readRegisters_served {registers : List RegisterName}
    (hop : round.operation = .readRegisters registers)
    (hchecks : link.client.checks (.readRegisters registers) = .ok ()) :
    Served link round (link.provider.readRegisters round.world registers round.machine) := by
  have hphase := held_of_registerStop hmatches hchecks
  obtain ⟨_, -, hrest⟩ := bind_eq_ok.mp hchecks
  obtain ⟨_, hcapability, hnames⟩ := bind_eq_ok.mp hrest
  obtain ⟨hnonempty, hlength, hnodup, hallowed⟩ :=
    names_ok (capabilities_of_required hmatches hcapability) hnames
  have hstays : ¬ Slips link round := not_slips_of_stays (by rw [hop]; rfl)
  have hread := readValues_spec round.world link.provider registers .registers round.machine
  unfold ControlProvider.readRegisters
  rw [if_neg hphase, if_neg (by simp [hnonempty, hlength, hnodup, mem_readable])]
  generalize link.provider.readValues round.world _ _ round.machine = handled at hread ⊢
  obtain ⟨provider, after, outcome⟩ := handled
  obtain ⟨-, rfl, ⟨text, rfl⟩ | ⟨values, rfl, hvalues⟩⟩ := hread
  · exact .refused after _ (.inl rfl) hstays
  · refine .kept _ _ (by rw [hop]; rfl) rfl ?_ hstays
    rw [hop]
    apply accepts_same
    simp only [ControlSession.finish, ControlSession.checkRead, validateValues_ok hvalues hnodup,
      ReplyValue.answer]

theorem writeRegisters_served {writes : List RegisterWrite}
    (hop : round.operation = .writeRegisters writes)
    (hchecks : link.client.checks (.writeRegisters writes) = .ok ()) :
    Served link round (link.provider.writeRegisters round.world writes round.machine) := by
  have hphase := held_of_registerStop hmatches hchecks
  obtain ⟨_, -, hrest⟩ := bind_eq_ok.mp hchecks
  obtain ⟨_, hcapability, hrest⟩ := bind_eq_ok.mp hrest
  have hstays : ¬ Slips link round := not_slips_of_stays (by rw [hop]; rfl)
  split at hrest
  · cases hrest
  rename_i hempty
  obtain ⟨-, hlength, hnodup, hallowed⟩ :=
    names_ok (capabilities_of_required hmatches hcapability) hrest
  have hrequest : ¬ (writes.isEmpty = true ∨ 32 < writes.length ∨
      ¬ (writes.map RegisterWrite.name).Nodup ∨
      ((writes.map RegisterWrite.name).any fun name => !name.writable) = true) := by
    rw [List.length_map] at hlength
    simp only [if_true, mem_writableRegisters] at hallowed
    simp only [hempty, Nat.not_lt.mpr hlength, hnodup, List.any_eq_true, Bool.not_eq_true',
      not_true_eq_false, false_or, Bool.false_eq_true]
    rintro ⟨name, hname, hnot⟩
    rw [hallowed name hname] at hnot
    cases hnot
  obtain ⟨hwriting, hcode⟩ := writeRegisters_admitted round.world round.machine hphase hrequest
  generalize link.provider.writeRegisters round.world writes round.machine = handled
    at hwriting hcode ⊢
  obtain ⟨provider, after, outcome⟩ := handled
  obtain rfl : provider = link.provider := hwriting.provider_eq
  cases outcome with
  | error error =>
    refine .refused after error ?_ hstays
    exact (hcode error rfl).imp id fun hguard => .inr (.inl ⟨hguard, writes, hop⟩)
  | ok value =>
    obtain ⟨happlied, values, rfl, hvalues⟩ := hwriting.applied value rfl
    refine .kept _ _ (by rw [hop]; rfl) rfl ?_ hstays
    rw [hop]
    exact written_accepts hvalues hnodup fun write hwrite => (happlied write hwrite).2

theorem activeVtl_served (hop : round.operation = .activeVtl) :
    Served link round (link.provider.activeVtl round.world round.machine) := by
  have hstays : ¬ Slips link round := not_slips_of_stays (by rw [hop]; rfl)
  unfold ControlProvider.activeVtl
  split
  · rename_i hphase
    refine .refused _ _ (.inr (.inr (.inr ⟨rfl, hop, fun hrunning => hphase ?_⟩))) hstays
    exact view_eq_running.mp (hrunning ▸ hmatches.phase)
  · dsimp only
    split
    · rename_i value after _
      refine .kept _ _ (by rw [hop]; rfl) rfl ?_ hstays
      rw [hop]
      apply accepts_same
      have hsmall : ¬ 15 < value % 16 := by omega
      simp only [ControlSession.finish, ControlSession.checkActiveVtl, if_neg hsmall,
        ReplyValue.answer]
    · exact .refused _ _ (.inl rfl) hstays

theorem perform_served (hasked : (link.asked round).isSome)
    (hchecks : link.client.checks round.operation = .ok ()) :
    Served link round
      (link.provider.perform round.world round.token round.machine round.operation) := by
  cases hop : round.operation with
  | capabilities =>
    refine .kept _ _ (by rw [hop]; rfl) rfl ?_ (not_slips_of_stays (by rw [hop]; rfl))
    rw [hop]
    refine ⟨some providerCapabilities, false, .ok (.capabilities providerCapabilities), ?_,
      .inr rfl, fun _ => rfl, fun h => absurd h Bool.false_ne_true⟩
    simp only [ControlSession.finish, ControlSession.checkCapabilities,
      providerCapabilities_valid]
    rfl
  | beginArm =>
    rw [hop] at hchecks
    obtain ⟨-, -, hrest⟩ := bind_eq_ok.mp hchecks
    split at hrest
    · cases hrest
    rename_i hphase
    replace hphase := not_not.mp hphase
    have hrunning := view_eq_running.mp (hphase ▸ hmatches.phase)
    simp only [ControlProvider.perform, hrunning, ne_eq, not_true_eq_false, if_false]
    apply served_enter (.arming) hasked (by rw [hop]; rfl) (by rw [hop]; rfl) rfl
      (fun _ => rfl) (by rw [hphase]; simp) (by simp) (fun _ => by rw [hop]; rfl)
    simp [hop]
  | finishArm =>
    rw [hop] at hchecks
    obtain ⟨-, -, hrest⟩ := bind_eq_ok.mp hchecks
    split at hrest
    · cases hrest
    rename_i hphase
    replace hphase := not_not.mp hphase
    have harming := view_eq_arming.mp (hphase ▸ hmatches.phase)
    simp only [ControlProvider.perform, harming, ne_eq, not_true_eq_false, if_false]
    apply served_enter (.running) hasked (by rw [hop]; rfl) (by rw [hop]; rfl) rfl
      (fun _ => rfl) (by rw [hphase]; simp) (by simp) (fun _ => by rw [hop]; rfl)
    simp [hop]
  | publishStop event => exact publishStop_served hmatches hop hasked (hop ▸ hchecks)
  | heldEvent => exact heldEvent_served hmatches hop (hop ▸ hchecks)
  | readRegisters registers => exact readRegisters_served hmatches hop (hop ▸ hchecks)
  | writeRegisters writes => exact writeRegisters_served hmatches hop (hop ▸ hchecks)
  | activeVtl => exact activeVtl_served hmatches hop
  | release =>
    rw [hop] at hchecks
    obtain ⟨_, hstopped, -⟩ := bind_eq_ok.mp hchecks
    obtain ⟨event, hphase⟩ := held_of_stopped hstopped
    obtain ⟨hheld, -⟩ := view_eq_stopped.mp (hphase ▸ hmatches.phase)
    simp only [ControlProvider.perform, hheld, ne_eq, not_true_eq_false, if_false]
    apply served_enter (.running) hasked (by rw [hop]; rfl) (by rw [hop]; rfl) rfl
      (fun _ => rfl) (by rw [hphase]; simp) (by simp) (fun _ => by rw [hop]; rfl)
    simp [hop]

theorem handled_served {request : Request} (hasked : link.asked round = some request) :
    Served link round (link.handled round request) := by
  obtain ⟨hchecks, hrequest, -⟩ := written_eq_some hasked
  have hperform := perform_served hmatches (by rw [hasked]; rfl) hchecks
  have hsame : link.handled round request =
      link.provider.perform round.world round.token round.machine round.operation := by
    unfold Link.handled ControlProvider.serve
    simp [hrequest, ControlSession.request, hmatches.target, hmatches.epoch]
  rw [hsame]
  exact hperform

end

/-! ### One round -/

/-- What an agreeing client gets from a round whose answer arrives: what the provider said, as
it said it, unless the session ends. -/
inductive Settles (link : Link) (round : Round) (turn : Turn Answer) : Prop
  | answered (request : Request) (value : ReplyValue) (hasked : link.asked round = some request)
      (houtcome : (link.handled round request).outcome = .ok value)
      (hresult : turn.result = .ok value.answer)
  | refused (request : Request) (error : ProviderError)
      (hasked : link.asked round = some request)
      (houtcome : (link.handled round request).outcome = .error error)
      (hresult : turn.result = .error (.refusal error)) (hgrounds : Grounds link round error)
  | repeated (request : Request) (hpoisoned : turn.session.poisoned = true)
      (hasked : link.asked round = some request)
      (hrepeats : (link.handled round request).provider.epoch ∈ link.client.issuedEpochs)
  | unverified (request : Request) (value : ReplyValue) (hpoisoned : turn.session.poisoned = true)
      (hasked : link.asked round = some request)
      (houtcome : (link.handled round request).outcome = .ok value)
      (hvalue : Unverified round.operation value)

theorem step_of_silent (hasked : link.asked round = none) : link.step round = link := by
  have hcalls := call_calls (fun _ => none) link.client round.operation none
  have hsilent : (link.client.call (fun _ => none) round.operation none).session =
      link.client := by
    unfold Link.asked at hasked
    generalize link.client.call (fun _ => none) round.operation none = turn at hcalls hasked
    cases hcalls with
    | silent text => rfl
    | _ => cases hasked
  simp only [Link.step, Link.turn, hasked, hsilent]

theorem not_asked_of_poisoned (h : link.client.poisoned = true) : link.asked round = none := by
  have hended : Ended link.client := .inl h
  obtain ⟨text, hcall⟩ := call_of_ended (fun _ => none) round.operation none hended
  unfold Link.asked
  rw [hcall]

theorem poisoned_of_lost (parse : String → Option Response)
    (hchecks : client.checks operation = .ok ()) (hwrites : Writes client operation) :
    (client.call parse operation none).session.poisoned = true := by
  rw [call_eq_guarded]
  simp only [ControlSession.guarded, hchecks, ControlSession.exchange, hwrites.unpoisoned,
    Bool.false_eq_true, if_false, if_neg (Nat.not_le.mpr hwrites.fits), ControlSession.accept]

theorem Served.target {handled : ControlProvider.Handled} (h : Served link round handled) :
    handled.provider.target = link.provider.target := by
  cases h with
  | kept | refused => rfl
  | moved _ _ _ _ _ _ htarget => exact htarget
  | slipped _ _ _ htarget => exact htarget

theorem Matches.next (h : Matches link.client link.provider) {capabilities : Option Capabilities}
    {poisoned : Bool}
    (hcapabilities : capabilities = link.client.capabilities ∨
      capabilities = some providerCapabilities) :
    Matches { link.client.next with capabilities := capabilities, poisoned := poisoned }
      link.provider where
  target := h.target
  epoch := h.epoch
  phase := h.phase
  capabilities := by
    rcases hcapabilities with rfl | rfl
    · exact h.capabilities
    · exact .inr rfl
  valid := h.valid

/-- A round between ends that agree: they agree behind it unless the provider slips, and an
answer that arrives settles the call. -/
theorem round_of_matches (hmatches : Matches link.client link.provider) {request : Request}
    (hasked : link.asked round = some request) :
    (Agrees (link.step round) ↔ ¬ Slips link round) ∧
      (round.delivered = true → Settles link round (link.turn round)) := by
  obtain ⟨hchecks, rfl, hwrites⟩ := written_eq_some hasked
  have hserved := handled_served hmatches hasked
  have hturn : link.turn round = link.client.call
      (fun _ => some ((link.handled round (link.client.request round.operation)).response
        link.client.nextId)) round.operation (if round.delivered then some "" else none) := by
    simp only [Link.turn, hasked]
    rfl
  have hstep : link.step round = ⟨(link.turn round).session,
      (link.handled round (link.client.request round.operation)).provider⟩ := by
    simp only [Link.step, hasked]
  rw [hstep]
  cases hdelivered : round.delivered with
  | false =>
    rw [hdelivered] at hturn
    have hlost := poisoned_of_lost (fun _ => some ((link.handled round
      (link.client.request round.operation)).response link.client.nextId)) hchecks hwrites
    refine ⟨iff_of_true (.inl (by rw [hturn]; exact hlost)) fun hslips => ?_, nofun⟩
    rw [hslips.delivered] at hdelivered
    cases hdelivered
  | true =>
    rw [hdelivered, if_pos rfl] at hturn
    have hanswers : ((link.handled round (link.client.request round.operation)).response
        link.client.nextId).Answers link.client :=
      ⟨rfl, rfl, hserved.target.trans hmatches.target.symm⟩
    generalize hhandled : link.handled round (link.client.request round.operation) = handled at *
    cases hserved with
    | kept machine value hexpects hchanges haccepts hslips =>
      rw [call_kept hchecks hwrites hanswers rfl hmatches.epoch.symm hexpects hchanges] at hturn
      obtain ⟨capabilities, poisoned, result, hfinish, hcapabilities, hdone, hunverified⟩ :=
        haccepts
      rw [hfinish] at hturn
      rw [hturn]
      refine ⟨iff_of_true (.inr (hmatches.next hcapabilities)) hslips, fun _ => ?_⟩
      cases poisoned with
      | false =>
        obtain rfl := hdone rfl
        exact .answered _ value hasked (by rw [hhandled]) rfl
      | true => exact .unverified _ value rfl hasked (by rw [hhandled]) (hunverified rfl)
    | moved provider machine value shown hexpects hchanges htarget hepoch hview hvalid hfinish
        hslips =>
      by_cases hissued : provider.epoch ∈ link.client.issuedEpochs
      · have hpoisoned := call_repeated hchecks hwrites hanswers rfl hexpects hchanges hissued
        rw [← hturn] at hpoisoned
        refine ⟨iff_of_true (.inl hpoisoned) hslips, fun _ => ?_⟩
        exact .repeated _ hpoisoned hasked (by rw [hhandled]; exact hissued)
      · rw [call_moved hchecks hwrites hanswers rfl hexpects hchanges hepoch hissued,
          hfinish] at hturn
        rw [hturn]
        refine ⟨iff_of_true (.inr ⟨?_, rfl, hview, hmatches.capabilities, ?_⟩) hslips,
          fun _ => .answered _ value hasked (by rw [hhandled]) ?_⟩
        · exact hmatches.target.trans htarget.symm
        · intro event hheld
          apply hvalid
          unfold ControlSession.held at hheld
          split at hheld
          · cases hheld
          · cases hheld
          · rename_i hphase
            cases hheld
            exact hphase
        · rw [answer_of_changesEpoch hchanges]
    | slipped provider machine error htarget hepoch hview hcode hslips =>
      rw [call_refused hchecks hwrites hanswers rfl (hepoch.trans hmatches.epoch.symm)] at hturn
      rw [hturn]
      refine ⟨iff_of_false ?_ (not_not.mpr (hslips hdelivered)), fun _ =>
        .refused _ error hasked (by rw [hhandled]) rfl (.inl hcode)⟩
      rintro (hpoisoned | hmatch)
      · cases hpoisoned
      · exact hview hmatch.phase
    | refused machine error hgrounds hslips =>
      rw [call_refused hchecks hwrites hanswers rfl hmatches.epoch.symm] at hturn
      rw [hturn]
      exact ⟨iff_of_true (.inr (hmatches.next (.inl rfl))) hslips, fun _ =>
        .refused _ error hasked (by rw [hhandled]) rfl hgrounds⟩

theorem step_agrees (h : Agrees link) (round : Round) :
    Agrees (link.step round) ↔ ¬ Slips link round := by
  cases hasked : link.asked round with
  | none =>
    rw [step_of_silent hasked]
    refine iff_of_true h fun hslips => ?_
    have hsome := hslips.asked
    rw [hasked] at hsome
    cases hsome
  | some request =>
    cases h with
    | inl hpoisoned =>
      rw [not_asked_of_poisoned hpoisoned] at hasked
      cases hasked
    | inr hmatches => exact (round_of_matches hmatches hasked).1

/-! ### Runs -/

namespace Sample

def world : World := ⟨fun _ => {}, fun _ _ _ => rfl⟩

def token : Except String String := .ok "0123456789abcdef"

def provider : ControlProvider := .opened target opened.epoch false

def machine : Machine where
  registers := fun address => if address = provider.address .cr3 then (0x1000, 0) else (0, 0)
  calls := 0

theorem client_greets :
    ControlSession.greet selector ⟨2, provider.target, provider.epoch⟩ = .ok opened := by
  decide +kernel

def negotiation : Round := ⟨.capabilities, machine, world, token, true⟩

def publication : Round :=
  ⟨.publishStop (event 1 .debugException), machine, world, .error "refused", true⟩

def held : Round :=
  ⟨.publishStop (event 1 .debugException), machine, world, token, true⟩

def reading : Round where
  operation := .readRegisters [.cr3, .rip]
  machine := { machine with
    registers := fun address => if address = provider.address .cr3 then (0x1000, 0) else (7, 1) }
  world := world
  token := token
  delivered := true

theorem held_kept : ∀ visit ∈ visits Link.step ⟨opened, provider⟩ [negotiation, held],
    ¬ Slips visit.1 visit.2 := by
  simp only [visits, List.forall_mem_cons, List.not_mem_nil, false_implies, implies_true,
    and_true]
  refine ⟨not_slips_of_stays rfl, fun hslips => ?_⟩
  obtain ⟨phase, hphase, hepochless⟩ := hslips.epochless
  cases hphase
  exact absurd hepochless (by decide +kernel)

end Sample

section
variable {target : TargetIdentity} {epoch : StopEpoch} {allowed : Bool} {selector : TargetSelector}

theorem matches_of_greet (h : ControlSession.greet selector ⟨2, target, epoch⟩ = .ok client) :
    Matches client (.opened target epoch allowed) := by
  simp only [ControlSession.greet, bind, Except.bind] at h
  split at h
  · cases h
  split at h
  · cases h
  split at h
  · cases h
  cases h
  exact ⟨rfl, rfl, rfl, .inl rfl, by simp [ControlSession.held]⟩

/-- From the hello on, whatever is called and whatever becomes of it: the two ends agree on
target, epoch, phase and held event all along the run just when no transition whose failure
reaches the client was left without an epoch.  The provider moves before it has one. -/
theorem ends_agree_unless_epoch_fails
    (hclient : ControlSession.greet selector ⟨2, target, epoch⟩ = .ok client) (allowed : Bool)
    (rounds : List Round) :
    (∀ front, front <+: rounds →
      Agrees (run Link.step ⟨client, .opened target epoch allowed⟩ front)) ↔
      ∀ visit ∈ visits Link.step ⟨client, .opened target epoch allowed⟩ rounds,
        ¬ Slips visit.1 visit.2 := by
  apply forall_prefix_iff Agrees (fun _ _ => True) fun link round => ¬ Slips link round
  · exact fun _ round h _ => step_agrees h round
  · exact .inr (matches_of_greet hclient)
  · exact fun _ _ => trivial

/-- The provider holds the stop it could not name an epoch for; the client believes it
running. -/
theorem ends_part_over_publication :
    ¬ ∀ front, front <+: [Sample.negotiation, Sample.publication] →
      Agrees (run Link.step ⟨Sample.opened, Sample.provider⟩ front) := by
  intro hagree
  have hkept := (ends_agree_unless_epoch_fails Sample.client_greets false _).mp hagree
  apply hkept (Link.step ⟨Sample.opened, Sample.provider⟩ Sample.negotiation, Sample.publication)
    (List.mem_cons_of_mem _ List.mem_cons_self)
  refine ⟨by decide +kernel, rfl, ⟨.stopped, rfl, rfl⟩, fun _ _ => by decide +kernel⟩

/-- In a run without such a failure, every answer that arrives settles its call: with the
value asked for, or with a refusal on the provider's own failure, on the CR3 of a stop to be
published, on a register that a guarded write finds changed, or on the VTL asked for away from
running.  Beyond that the session only ends over a repeated epoch or an unverified write. -/
theorem agreeing_client_is_answered
    (hclient : ControlSession.greet selector ⟨2, target, epoch⟩ = .ok client) (allowed : Bool)
    (rounds : List Round)
    (hslips : ∀ visit ∈ visits Link.step ⟨client, .opened target epoch allowed⟩ rounds,
      ¬ Slips visit.1 visit.2)
    (round : Round) :
    let link := run Link.step ⟨client, .opened target epoch allowed⟩ rounds
    (link.asked round).isSome → round.delivered = true →
      Settles link round (link.turn round) := by
  intro link hasked hdelivered
  have hstart : Agrees ⟨client, .opened target epoch allowed⟩ :=
    .inr (matches_of_greet hclient)
  have hagrees : Agrees link := run_invariant Agrees (fun link round => ¬ Slips link round)
    (fun _ round h hnot => (step_agrees h round).mpr hnot) hstart hslips
  obtain ⟨request, hrequest⟩ := Option.isSome_iff_exists.mp hasked
  cases hagrees with
  | inl hpoisoned =>
    rw [not_asked_of_poisoned hpoisoned] at hrequest
    cases hrequest
  | inr hmatches => exact (round_of_matches hmatches hrequest).2 hdelivered

/-- The registers of a held stop are read, and the call returns what they hold. -/
theorem agreeing_client_is_answered_sample :
    let link := run Link.step ⟨Sample.opened, Sample.provider⟩ [Sample.negotiation, Sample.held]
    Settles link Sample.reading (link.turn Sample.reading) ∧
      (link.turn Sample.reading).result =
        .ok (.values [⟨.cr3, 0, 0x1000, 0⟩, ⟨.rip, 0, 7, 1⟩]) :=
  ⟨agreeing_client_is_answered Sample.client_greets false [Sample.negotiation, Sample.held]
    Sample.held_kept Sample.reading (by decide +kernel) rfl, by decide +kernel⟩

end

end WindbgMcp.SkControl
