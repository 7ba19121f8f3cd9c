import Mathlib.Data.List.Nodup
import WindbgMcp.SkControl.Provider

/-! The provider's guarded register writes are atomic whatever the hypervisor does: a request
applies all of its writes, or every register it names is back where it was, or the error it
answers with names the registers that are not. -/
namespace WindbgMcp.SkControl
open Library Fallible

variable {world : World} {provider : ControlProvider} {machine after : Machine}

theorem mem_readable (name : RegisterName) : name ∈ readable := by
  cases name <;> decide

theorem registerNumber_injective : Function.Injective registerNumber := by
  have hnodup : (readable.map registerNumber).Nodup := by decide +kernel
  intro name other h
  exact List.inj_on_of_nodup_map hnodup (mem_readable name) (mem_readable other) h

/-! ### The hypercalls -/

section
variable {α : Type} {partition vp inputVtl low high : Nat} {register : RegisterName}

theorem call_preserves (world : World) : Preserves Machine.registers (Probe.call world) := by
  intro machine
  unfold Probe.call
  rw [result_bind, result_get]
  dsimp only
  rw [result_bind, result_set]
  dsimp only
  cases (world.behaviour machine.calls).failed with
  | some text => rfl
  | none => rfl

theorem readRegister_preserves (world : World) (partition vp inputVtl : Nat)
    (register : RegisterName) :
    Preserves Machine.registers (Probe.readRegister world partition vp inputVtl register) := by
  apply (call_preserves world).bind
  intro behaviour machine
  rfl

theorem readRegister_ok {word : RegisterWord}
    (h : result (Probe.readRegister world partition vp inputVtl register) machine =
      (.ok word, after)) (hstatus : word.status = 0) :
    (word.low, word.high) =
      machine.registers ⟨partition, vp, inputVtl, registerNumber register⟩ := by
  obtain ⟨behaviour, middle, hcall, h⟩ := bind_ok h
  have hsame := call_preserves world machine
  rw [hcall] at hsame
  rw [result_bind, result_get] at h
  simp only [result_pure, Prod.mk.injEq, Except.ok.injEq] at h
  obtain ⟨rfl, rfl⟩ := h
  simp only at hstatus hsame
  simp only [hstatus, if_true, hsame]

theorem value_ok {word : RegisterWord} {value : Nat × Nat} (h : word.value register = .ok value) :
    word.status = 0 ∧ value = (word.low, word.high) := by
  unfold RegisterWord.value at h
  split at h
  · cases h
  · rename_i hstatus
    cases h
    exact ⟨not_not.mp hstatus, rfl⟩

theorem lowWord_ok {word : RegisterWord} {value : Nat} (h : word.lowWord register = .ok value) :
    word.status = 0 ∧ value = word.low := by
  obtain ⟨both, hboth, hvalue⟩ := bind_eq_ok.mp h
  obtain ⟨hstatus, rfl⟩ := value_ok hboth
  cases hvalue
  exact ⟨hstatus, rfl⟩

theorem setRegister_other (world : World) (register : RegisterName) (value : Nat × Nat)
    {other : RegisterAddress} (hother : other ≠ ⟨partition, vp, 0x11, registerNumber register⟩) :
    (result (Probe.setRegister world partition vp register value) machine).2.registers other =
      machine.registers other := by
  let behaviour := world.behaviour machine.calls
  let address : RegisterAddress := ⟨partition, vp, 0x11, registerNumber register⟩
  have hcall := call_preserves world { machine with
    registers := fun other =>
      if other = address then behaviour.left.getD value
      else behaviour.others other (machine.registers other) }
  rw [show (result (Probe.setRegister world partition vp register value) machine).2.registers
    other = _ from congrFun hcall other]
  exact (if_neg hother).trans (world.sets_alone _ _ _)

theorem writeRegister_other (world : World) (low high : Nat) {other : RegisterAddress}
    (hother : other ≠ ⟨partition, vp, 0x11, registerNumber register⟩) :
    (result (Probe.writeRegister world partition vp register low high) machine).2.registers
      other = machine.registers other := by
  have hset : (result (Probe.setRegister world partition vp register (low, high))
      machine).2.registers other = machine.registers other :=
    setRegister_other world register (low, high) hother
  unfold Probe.writeRegister
  rw [result_bind]
  rcases hrun : result (Probe.setRegister world partition vp register (low, high)) machine with
    ⟨outcome, middle⟩
  rw [hrun] at hset
  cases outcome with
  | error text => exact hset
  | ok behaviour =>
    refine (congrFun ?_ other).trans hset
    dsimp only
    split
    · rfl
    · refine Preserves.bind (readRegister_preserves world partition vp 0x11 register) ?_ middle
      intro word
      apply (preserves_lift _).bind
      intro observed
      split
      · exact preserves_pure _
      · exact preserves_throw _

/-- A write that succeeds has read its value back. -/
theorem writeRegister_ok {value : Unit}
    (h : result (Probe.writeRegister world partition vp register low high) machine =
      (.ok value, after)) :
    after.registers ⟨partition, vp, 0x11, registerNumber register⟩ = (low, high) := by
  obtain ⟨behaviour, middle, hset, h⟩ := bind_ok h
  split at h
  · cases h
  obtain ⟨word, last, hread, hrest⟩ := bind_ok h
  obtain ⟨observed, same, hlifted, hlast⟩ := bind_ok hrest
  obtain ⟨hvalue, rfl⟩ := lift_ok hlifted
  obtain ⟨hstatus, hobserved⟩ := value_ok hvalue
  split at hlast
  · rename_i hsame
    cases hlast
    have hkept := readRegister_preserves world partition vp 0x11 register middle
    rw [show result (Probe.readRegister world partition vp 0x11 register) middle = _ from hread]
      at hkept
    rw [show after.registers = middle.registers from hkept, ← readRegister_ok hread hstatus,
      ← hobserved, hsame]
  · cases hlast

end

/-! ### What a request does to the registers -/

def ControlProvider.address (provider : ControlProvider) (name : RegisterName) :
    RegisterAddress :=
  ⟨provider.partition, provider.vp, 0x11, registerNumber name⟩

def ControlProvider.holds (provider : ControlProvider) (machine : Machine) (name : RegisterName) :
    Nat × Nat :=
  machine.registers (provider.address name)

theorem address_injective (provider : ControlProvider) : Function.Injective provider.address := by
  intro name other h
  exact registerNumber_injective (RegisterAddress.mk.inj h).2.2.2

def Outside (provider : ControlProvider) (names : List RegisterName) (before after : Machine) :
    Prop :=
  ∀ address, (∀ name ∈ names, address ≠ provider.address name) →
    after.registers address = before.registers address

def Settled (provider : ControlProvider) (failures : List String) (machine : Machine)
    (name : RegisterName) (value : Nat) : Prop :=
  (provider.holds machine name).1 = value ∨ ∃ text, name.name ++ ": " ++ text ∈ failures

section
variable {before : List (RegisterName × Nat)} {names : List RegisterName} {name : RegisterName}

theorem Outside.at {start : Machine} (h : Outside provider names start after)
    (hname : name ∉ names) :
    provider.holds after name = provider.holds start name := by
  apply h
  rintro other hother heq
  exact hname (address_injective provider heq ▸ hother)

theorem Outside.trans {start middle : Machine} {more : List RegisterName}
    (h : Outside provider names start middle) (hlater : Outside provider more middle after)
    (hnames : ∀ name ∈ names, name ∈ more) : Outside provider more start after := by
  intro address haddress
  rw [hlater address haddress]
  exact h address fun name hname => haddress name (hnames name hname)

theorem outside_writeRegister (world : World) (provider : ControlProvider) (name : RegisterName)
    (low high : Nat) (machine : Machine) :
    Outside provider [name] machine
      (result (provider.writeRegister world name low high) machine).2 := by
  intro address haddress
  exact writeRegister_other world low high (haddress name (List.mem_singleton_self name))

theorem restore_spec (world : World) (provider : ControlProvider) (machine : Machine)
    (hnodup : (before.map Prod.fst).Nodup) :
    let restored := provider.restore world before machine
    Outside provider (before.map Prod.fst) machine restored.2 ∧
      ∀ saved ∈ before, Settled provider restored.1 restored.2 saved.1 saved.2 := by
  induction before generalizing machine with
  | nil => exact ⟨fun _ _ => rfl, nofun⟩
  | cons saved before ih =>
    obtain ⟨name, value⟩ := saved
    obtain ⟨hfresh, hnodup⟩ := List.nodup_cons.mp hnodup
    have hwrite := outside_writeRegister world provider name value 0 machine
    unfold ControlProvider.restore
    rcases hrun : result (provider.writeRegister world name value 0) machine with
      ⟨outcome, middle⟩
    rw [hrun] at hwrite
    obtain ⟨houtside, hsettled⟩ := ih middle hnodup
    have hall : Outside provider (name :: before.map Prod.fst) machine
        (provider.restore world before middle).2 := by
      intro address haddress
      rw [houtside address fun other hother => haddress other (List.mem_cons_of_mem _ hother)]
      exact hwrite address fun other hother =>
        haddress other (List.mem_singleton.mp hother ▸ List.mem_cons_self)
    cases outcome with
    | ok done =>
      refine ⟨hall, List.forall_mem_cons.mpr ⟨.inl ?_, hsettled⟩⟩
      rw [houtside.at hfresh]
      exact congrArg Prod.fst (writeRegister_ok hrun)
    | error text =>
      refine ⟨hall, List.forall_mem_cons.mpr ⟨.inr ⟨text, List.mem_cons_self⟩, ?_⟩⟩
      intro other hother
      refine (hsettled other hother).imp id ?_
      rintro ⟨later, hlater⟩
      exact ⟨later, List.mem_cons_of_mem _ hlater⟩

def savedOf (provider : ControlProvider) (start : Machine) (writes : List RegisterWrite) :
    List (RegisterName × Nat) :=
  writes.map fun write => (write.name, (provider.holds start write.name).1)

theorem savedOf_names {start : Machine} {writes : List RegisterWrite} :
    (savedOf provider start writes).map Prod.fst = writes.map RegisterWrite.name := by
  simp [savedOf]

theorem compare_spec (world : World) (provider : ControlProvider) (writes : List RegisterWrite)
    (machine : Machine) :
    let compared := provider.compare world writes machine
    compared.2.registers = machine.registers ∧
      ((∃ error, compared.1 = .error error ∧
          (error.code = .provider ∨ error.code = .guardMismatch)) ∨
        compared.1 = .ok (savedOf provider machine writes) ∧
          ∀ write ∈ writes, (provider.holds machine write.name).1 = write.expected) := by
  induction writes generalizing machine with
  | nil => exact ⟨rfl, .inr ⟨rfl, nofun⟩⟩
  | cons write writes ih =>
    have hpreserves : Preserves Machine.registers (provider.readLow world write.name) :=
      (readRegister_preserves world _ _ _ _).bind fun _ => preserves_lift _
    have hkept := hpreserves machine
    unfold ControlProvider.compare
    rcases hrun : result (provider.readLow world write.name) machine with ⟨outcome, middle⟩
    rw [hrun] at hkept
    replace hkept : middle.registers = machine.registers := hkept
    cases outcome with
    | error text => exact ⟨hkept, .inl ⟨_, rfl, .inl rfl⟩⟩
    | ok current =>
      have hcurrent : current = (provider.holds machine write.name).1 := by
        obtain ⟨word, same, hread, hlifted⟩ := bind_ok hrun
        obtain ⟨hstatus, hlow⟩ := lowWord_ok (lift_ok hlifted).1
        rw [hlow]
        exact congrArg Prod.fst (readRegister_ok hread hstatus)
      by_cases hexpected : current ≠ write.expected
      · simp only [if_pos hexpected]
        exact ⟨hkept, .inl ⟨_, rfl, .inr rfl⟩⟩
      have hlater := ih middle
      simp only [if_neg hexpected]
      generalize provider.compare world writes middle = compared at hlater
      obtain ⟨outcome, last⟩ := compared
      obtain ⟨hsame, ⟨error, rfl, hcode⟩ | ⟨rfl, hothers⟩⟩ := hlater
      · exact ⟨hsame.trans hkept, .inl ⟨error, rfl, hcode⟩⟩
      · simp only [ControlProvider.holds, hkept] at hothers
        refine ⟨hsame.trans hkept, .inr ⟨?_, List.forall_mem_cons.mpr ⟨?_, hothers⟩⟩⟩
        · simp only [savedOf, ControlProvider.holds, List.map_cons, hcurrent, hkept]
        · rw [← hcurrent]
          exact not_not.mp hexpected

/-- Where the writes of `done` have been made, the rest are made as well, or all are taken
back. -/
theorem applyWrites_spec (world : World) {start : Machine} (done writes : List RegisterWrite)
    (hnodup : ((done ++ writes).map RegisterWrite.name).Nodup)
    (houtside : Outside provider (done.map RegisterWrite.name) start machine)
    (hdone : ∀ write ∈ done,
      provider.holds machine write.name = (write.value, 0)) :
    let applied := provider.applyWrites world (savedOf provider start (done ++ writes))
      done.length writes machine
    Outside provider ((done ++ writes).map RegisterWrite.name) start applied.2 ∧
      ((applied.1 = .ok () ∧ ∀ write ∈ done ++ writes,
          provider.holds applied.2 write.name = (write.value, 0)) ∨
        ∃ primary failures,
          applied.1 = .error ⟨.provider, ControlProvider.rollbackDetail primary failures⟩ ∧
            ∀ write ∈ done ++ writes, Settled provider failures applied.2 write.name
              (provider.holds start write.name).1) := by
  induction writes generalizing machine done with
  | nil =>
    rw [List.append_nil]
    exact ⟨houtside, .inl ⟨rfl, hdone⟩⟩
  | cons write writes ih =>
    have hwrite := outside_writeRegister world provider write.name write.value 0 machine
    unfold ControlProvider.applyWrites
    rcases hrun : result (provider.writeRegister world write.name write.value 0) machine with
      ⟨outcome, middle⟩
    rw [hrun] at hwrite
    have hsplit : done ++ write :: writes = done ++ [write] ++ writes := by simp
    have hnodup' := hnodup
    rw [hsplit, List.map_append] at hnodup'
    have hfront := hnodup'.of_append_left
    have hmiddle : Outside provider ((done ++ [write]).map RegisterWrite.name) start middle := by
      intro address haddress
      rw [List.map_append, List.forall_mem_append] at haddress
      rw [hwrite address haddress.2]
      exact houtside address haddress.1
    cases outcome with
    | ok value =>
      have hnext : ∀ other ∈ done ++ [write],
          provider.holds middle other.name = (other.value, 0) := by
        rw [List.forall_mem_append, List.forall_mem_singleton]
        refine ⟨?_, writeRegister_ok hrun⟩
        intro other hother
        rw [hwrite.at, hdone other hother]
        rw [List.map_append, List.nodup_append] at hfront
        exact fun hmem => hfront.2.2 _ (List.mem_map_of_mem hother) _ hmem rfl
      have hlater := ih _ (by rw [← hsplit]; exact hnodup) hmiddle hnext
      rw [List.length_append, List.length_singleton, ← hsplit] at hlater
      exact hlater
    | error primary =>
      have htake : (savedOf provider start (done ++ write :: writes)).take (done.length + 1) =
          savedOf provider start (done ++ [write]) := by
        have happend : savedOf provider start (done ++ [write] ++ writes) =
            savedOf provider start (done ++ [write]) ++ savedOf provider start writes :=
          List.map_append
        rw [hsplit, happend]
        exact List.take_left' (by simp [savedOf])
      have hreverse : ((savedOf provider start (done ++ [write])).reverse.map
          Prod.fst).Nodup := by
        rw [List.map_reverse, savedOf_names]
        exact List.nodup_reverse.mpr hfront
      obtain ⟨hothers, hsettled⟩ := restore_spec world provider middle
        hreverse
      rw [List.map_reverse, savedOf_names] at hothers
      dsimp only
      unfold ControlProvider.rollbackFailedRegisterWrite
      rw [htake]
      generalize provider.restore world _ middle = restored at hothers hsettled ⊢
      have hfinal : Outside provider ((done ++ [write]).map RegisterWrite.name) start
          restored.2 :=
        hmiddle.trans (fun address haddress => hothers address fun name hname =>
          haddress name (List.mem_reverse.mp hname)) fun _ => id
      refine ⟨?_, .inr ⟨primary, restored.1, rfl, ?_⟩⟩
      · rw [hsplit, List.map_append]
        intro address haddress
        exact hfinal address fun name hname => haddress name (List.mem_append_left _ hname)
      · rw [hsplit, List.forall_mem_append]
        constructor
        · intro other hother
          exact hsettled _ (List.mem_reverse.mpr (List.mem_map_of_mem hother))
        · intro other hother
          refine .inl (congrArg Prod.fst (hfinal.at ?_))
          rw [List.nodup_append] at hnodup'
          exact fun hmem => hnodup'.2.2 _ hmem _ (List.mem_map_of_mem hother) rfl

end

def Applied (provider : ControlProvider) (writes : List RegisterWrite) (start after : Machine) :
    Prop :=
  ∀ write ∈ writes,
    (provider.holds start write.name).1 = write.expected ∧
      provider.holds after write.name = (write.value, 0)

/-- Every register reads as it did, or the answer names it among the failures of its
rollback. -/
def Unapplied (provider : ControlProvider) (writes : List RegisterWrite) (start after : Machine)
    (outcome : Except ProviderError ReplyValue) : Prop :=
  ∃ failures : List String,
    (∀ write ∈ writes, Settled provider failures after write.name
      (provider.holds start write.name).1) ∧
    (failures ≠ [] → ∃ primary,
      outcome = .error ⟨.provider, ControlProvider.rollbackDetail primary failures⟩)

def Reports (provider : ControlProvider) (machine : Machine) :
    List RegisterName → List RegisterValue → Prop :=
  List.Forall₂ fun name value =>
    value.name = name ∧ (value.status = 0 → value.low = (provider.holds machine name).1)

theorem mapM_readValue_reports {names : List RegisterName} {values : List RegisterValue}
    (h : result (names.mapM (provider.readValue world)) machine = (.ok values, after)) :
    Reports provider machine names values := by
  induction names generalizing machine values with
  | nil =>
    cases h
    exact .nil
  | cons name names ih =>
    rw [List.mapM_cons] at h
    obtain ⟨first, middle, hfirst, hrest⟩ := bind_ok h
    obtain ⟨rest, last, hothers, hlast⟩ := bind_ok hrest
    obtain ⟨word, same, hread, hvalue⟩ := bind_ok hfirst
    have hkept := readRegister_preserves world provider.partition provider.vp 0x11 name machine
    rw [show result (Probe.readRegister world _ _ 0x11 name) machine = _ from hread] at hkept
    cases hvalue
    cases hlast
    refine .cons ⟨rfl, fun hstatus => congrArg Prod.fst (readRegister_ok hread hstatus)⟩ ?_
    have hlater := ih hothers
    unfold Reports ControlProvider.holds at hlater
    rw [show middle.registers = machine.registers from hkept] at hlater
    exact hlater

theorem readValues_spec (world : World) (provider : ControlProvider) (names : List RegisterName)
    (reply : List RegisterValue → ReplyValue) (machine : Machine) :
    let handled := provider.readValues world names reply machine
    handled.machine.registers = machine.registers ∧ handled.provider = provider ∧
      ((∃ text, handled.outcome = .error ⟨.provider, text⟩) ∨
        ∃ values, handled.outcome = .ok (reply values) ∧
          Reports provider machine names values) := by
  have hkept : Preserves Machine.registers (names.mapM (provider.readValue world)) :=
    preserves_mapM (fun _ => (readRegister_preserves world _ _ _ _).bind fun _ =>
      preserves_pure _) names
  replace hkept := hkept machine
  unfold ControlProvider.readValues
  rcases hrun : result (names.mapM (provider.readValue world)) machine with ⟨outcome, last⟩
  rw [hrun] at hkept
  cases outcome with
  | ok values => exact ⟨hkept, rfl, .inr ⟨values, rfl, mapM_readValue_reports hrun⟩⟩
  | error text => exact ⟨hkept, rfl, .inl ⟨text, rfl⟩⟩

/-- What a request to write registers comes to. -/
structure Writing (provider : ControlProvider) (writes : List RegisterWrite) (start : Machine)
    (handled : ControlProvider.Handled) : Prop where
  provider_eq : handled.provider = provider
  outside : Outside provider (writes.map RegisterWrite.name) start handled.machine
  atomic : Applied provider writes start handled.machine ∨
    Unapplied provider writes start handled.machine handled.outcome
  applied : ∀ value, handled.outcome = .ok value →
    Applied provider writes start handled.machine ∧
      ∃ values, value = .registersWritten values ∧
        Reports provider handled.machine (writes.map RegisterWrite.name) values
  untouched : ∀ error, handled.outcome = .error error → error.code ≠ .provider →
    handled.machine.registers = start.registers

section
variable {writes : List RegisterWrite}

theorem writing_of_error {error : ProviderError} (h : after.registers = machine.registers) :
    Writing provider writes machine ⟨provider, after, .error error⟩ where
  provider_eq := rfl
  outside := fun address _ => congrFun h address
  atomic := .inr ⟨[], fun _ _ => .inl (by rw [ControlProvider.holds, h]; rfl),
    fun h => absurd rfl h⟩
  applied := nofun
  untouched := fun _ _ _ => h

/-- Writes that are not refused for what they ask. -/
theorem writeRegisters_admitted (world : World) (machine : Machine)
    (hphase : provider.phase ≠ .running)
    (hrequest : ¬ (writes.isEmpty = true ∨ 32 < writes.length ∨
      ¬ (writes.map RegisterWrite.name).Nodup ∨
      ((writes.map RegisterWrite.name).any fun name => !name.writable) = true)) :
    let handled := provider.writeRegisters world writes machine
    Writing provider writes machine handled ∧ ∀ error, handled.outcome = .error error →
      error.code = .provider ∨ error.code = .guardMismatch := by
  have hnodup : (writes.map RegisterWrite.name).Nodup := by
    by_contra hnot
    exact hrequest (.inr (.inr (.inl hnot)))
  have hcompare := compare_spec world provider writes machine
  unfold ControlProvider.writeRegisters
  dsimp only
  rw [if_neg hphase, if_neg hrequest]
  generalize provider.compare world writes machine = compared at hcompare
  obtain ⟨outcome, middle⟩ := compared
  obtain ⟨hsame, ⟨error, rfl, hcode⟩ | ⟨rfl, hexpected⟩⟩ := hcompare
  · exact ⟨writing_of_error hsame, fun other h => Except.error.inj h ▸ hcode⟩
  have hnone : Outside provider [] machine middle := fun address _ => congrFun hsame address
  have happly := applyWrites_spec world [] writes hnodup hnone nofun
  rw [List.nil_append, List.length_nil] at happly
  dsimp only
  generalize provider.applyWrites world (savedOf provider machine writes) 0 writes middle =
    tried at happly
  obtain ⟨outcome, last⟩ := tried
  obtain ⟨houtside, ⟨rfl, hwritten⟩ | ⟨primary, failures, rfl, hsettled⟩⟩ := happly
  · have hread := readValues_spec world provider (writes.map RegisterWrite.name)
      .registersWritten last
    dsimp only
    generalize provider.readValues world _ _ last = handled at hread
    obtain ⟨provider', machine', outcome⟩ := handled
    obtain ⟨hkept, rfl, hreports⟩ := hread
    replace hkept : machine'.registers = last.registers := hkept
    have happlied : Applied provider' writes machine machine' := by
      intro write hwrite
      refine ⟨hexpected write hwrite, ?_⟩
      rw [ControlProvider.holds, hkept]
      exact hwritten write hwrite
    have houtside' : Outside provider' (writes.map RegisterWrite.name) machine machine' := by
      intro address haddress
      rw [hkept]
      exact houtside address haddress
    rcases hreports with ⟨text, rfl⟩ | ⟨values, rfl, hvalues⟩
    · exact ⟨⟨rfl, houtside', .inl happlied, nofun, fun error h hother =>
        absurd (Except.error.inj h ▸ rfl) hother⟩, fun error h => .inl (Except.error.inj h ▸ rfl)⟩
    · refine ⟨⟨rfl, houtside', .inl happlied, fun value h => ⟨happlied, values, ?_, ?_⟩, nofun⟩,
        nofun⟩
      · exact (Except.ok.inj h).symm
      · unfold Reports ControlProvider.holds at hvalues ⊢
        rw [show machine'.registers = last.registers from hkept]
        exact hvalues
  · exact ⟨⟨rfl, houtside, .inr ⟨failures, hsettled, fun _ => ⟨primary, rfl⟩⟩, nofun,
      fun error h hother => absurd (Except.error.inj h ▸ rfl) hother⟩,
      fun error h => .inl (Except.error.inj h ▸ rfl)⟩

end

end WindbgMcp.SkControl
