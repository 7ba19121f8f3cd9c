import WindbgMcp.Library.LittleEndian
import WindbgMcp.Library.OneShot
import WindbgMcp.SkLive.Guards

/-! The memory a debugger of the Secure Kernel is given that the guest does not
hold: a synthetic thread page, and nine one-shot startup probes answered with
zeros.  Addresses and counts keep their machine widths. -/
namespace WindbgMcp.KdTarget

open Library
open SkLive (ArmMode)

def compatibilityPageBytes : UInt64 := 0x1000
def codeBackscanBytes : UInt64 := 0x2b
def codeLookaheadBytes : UInt64 := 0x80
def stackBookkeepingBytes : UInt64 := 0x80
def kuserSharedData : UInt64 := 0xfffff78000000000
def syntheticThread : UInt64 := 0xfffffffefffe0000
def syntheticGdt : UInt64 := syntheticThread + 0x800

def nullStartupProbes : Vector (UInt64 × UInt32) 2 := #v[(0, 4), (4, 0x0c)]

def kuserStartupProbes : Vector (UInt64 × UInt32) 4 :=
  #v[(kuserSharedData + 0x268, 1), (kuserSharedData + 0x3d8, 0x358),
    (kuserSharedData + 0x14, 0x80), (kuserSharedData + 0x08, 0x0c)]

def checkedAdd (value other : UInt64) : Option UInt64 :=
  if value.toNat + other.toNat < UInt64.size then some (value + other) else none

def checkedSub (value other : UInt64) : Option UInt64 :=
  if other ≤ value then some (value - other) else none

/-- A virtual read and what the held stop reports: its stack pointer, its
instruction pointer and the length of the instruction there. -/
structure MemoryRead where
  address : UInt64
  count : UInt32
  stoppedRsp : UInt64
  stoppedRip : UInt64
  instructionBytes : UInt64
deriving DecidableEq, Repr

inductive Probe where
  | nullStartup (index : Fin 2)
  | kuserStartup (index : Fin 4)
  | stackBookkeeping
  | codeBackscan
  | codeLookahead
deriving DecidableEq, Repr

def Probe.startup : Probe → Bool
  | .nullStartup _ => true
  | .kuserStartup _ => true
  | _ => false

def MemoryRead.is (read : MemoryRead) : Probe → Bool
  | .nullStartup index =>
    read.address == nullStartupProbes[index].1 && read.count == nullStartupProbes[index].2
  | .kuserStartup index =>
    read.address == kuserStartupProbes[index].1 && read.count == kuserStartupProbes[index].2
  | .stackBookkeeping =>
    read.address == read.stoppedRsp && read.count.toUInt64 == stackBookkeepingBytes &&
      read.stoppedRsp != 0
  | .codeBackscan =>
    checkedSub read.stoppedRip codeBackscanBytes == some read.address &&
      read.count.toUInt64 == codeBackscanBytes
  | .codeLookahead =>
    (checkedAdd read.stoppedRip read.instructionBytes).any (· == read.address) &&
      read.count.toUInt64 == codeLookaheadBytes

theorem find?_finRange {n : Nat} {holds : Fin n → Bool} {index : Fin n}
    (hindex : holds index = true) (honly : ∀ other, holds other = true → other = index) :
    (List.finRange n).find? holds = some index := by
  cases hfind : (List.finRange n).find? holds with
  | none =>
    rw [List.find?_eq_none] at hfind
    exact absurd hindex (hfind index (List.mem_finRange index))
  | some other => rw [honly other (List.find?_some hfind)]

theorem is_nullStartup_iff (read : MemoryRead) (index : Fin 2) :
    read.is (.nullStartup index) = true ↔
      read.address = nullStartupProbes[index].1 ∧ read.count = nullStartupProbes[index].2 := by
  simp [MemoryRead.is]

theorem is_kuserStartup_iff (read : MemoryRead) (index : Fin 4) :
    read.is (.kuserStartup index) = true ↔
      read.address = kuserStartupProbes[index].1 ∧ read.count = kuserStartupProbes[index].2 := by
  simp [MemoryRead.is]

theorem nullStartup_injective {read : MemoryRead} {index other : Fin 2}
    (hindex : read.is (.nullStartup index) = true) (hother : read.is (.nullStartup other) = true) :
    other = index := by
  rw [is_nullStartup_iff] at hindex hother
  have haddress := hother.1.symm.trans hindex.1
  clear hindex hother
  revert index other
  decide

theorem kuserStartup_injective {read : MemoryRead} {index other : Fin 4}
    (hindex : read.is (.kuserStartup index) = true)
    (hother : read.is (.kuserStartup other) = true) : other = index := by
  rw [is_kuserStartup_iff] at hindex hother
  have haddress := hother.1.symm.trans hindex.1
  clear hindex hother
  revert index other
  decide

theorem not_nullStartup_of_kuserStartup {read : MemoryRead} {index : Fin 4} {other : Fin 2}
    (hindex : read.is (.kuserStartup index) = true) : read.is (.nullStartup other) = false := by
  apply Bool.eq_false_iff.mpr
  intro hother
  rw [is_kuserStartup_iff] at hindex
  rw [is_nullStartup_iff] at hother
  have haddress := hother.1.symm.trans hindex.1
  clear hindex hother
  revert index other
  decide

/-- What a served read is logged as having been answered from. -/
inductive Source where
  | syntheticThread
  | probe (probe : Probe)
deriving DecidableEq, Repr

structure Served where
  source : Source
  bytes : List UInt8
deriving DecidableEq, Repr

def copyFromSlice (page : List UInt8) («at» : Nat) (bytes : List UInt8) : List UInt8 :=
  page.take «at» ++ (bytes ++ page.drop («at» + bytes.length))

def syntheticDescriptors : List (Nat × Nat) :=
  [(0x10, 0x00af9a000000ffff), (0x18, 0x00cf92000000ffff), (0x28, 0x00cff2000000ffff),
    (0x50, 0x00cff2000000ffff)]

def syntheticThreadPage : List UInt8 :=
  syntheticDescriptors.foldl
    (fun page (selector, descriptor) =>
      copyFromSlice page ((syntheticGdt - syntheticThread).toNat + selector)
        (LittleEndian.encode 8 descriptor))
    (List.replicate compatibilityPageBytes.toNat 0)

def syntheticThreadMemory (address : UInt64) (count : UInt32) : List UInt8 :=
  (syntheticThreadPage.drop (address - syntheticThread).toNat).take count.toNat

def compatibilityZeros (count : UInt32) : List UInt8 := List.replicate count.toNat 0

structure CompatibilityMemory where
  mode : ArmMode
  stackBookkeeping : Bool
  codeBackscan : Bool
  codeLookahead : Bool
  nullStartupProbes : Vector Bool 2
  kuserStartupProbes : Vector Bool 4
deriving DecidableEq, Repr

namespace CompatibilityMemory

def forStop (mode : ArmMode) : CompatibilityMemory where
  mode
  stackBookkeeping := mode == .redirect
  codeBackscan := mode == .redirect
  codeLookahead := mode == .redirect
  nullStartupProbes := Vector.replicate 2 true
  kuserStartupProbes := Vector.replicate 4 true

def resetPeerProbes (memory : CompatibilityMemory) : CompatibilityMemory := forStop memory.mode

def onExecutionStop (_memory : CompatibilityMemory) : CompatibilityMemory := forStop .natural

def insideThreadPage (read : MemoryRead) (past : UInt64) : Bool :=
  read.address ≥ syntheticThread && past ≤ syntheticThread + compatibilityPageBytes &&
    read.count.toUInt64 ≤ compatibilityPageBytes

/-- Nothing, or the answer and where it came from, and the flags left behind. -/
def read (memory : CompatibilityMemory) (read : MemoryRead) :
    Option Served × CompatibilityMemory :=
  match checkedAdd read.address read.count.toUInt64 with
  | none => (none, memory)
  | some past =>
    if insideThreadPage read past then
      (some ⟨.syntheticThread, syntheticThreadMemory read.address read.count⟩, memory)
    else
      let zeros (probe : Probe) : Option Served :=
        some ⟨.probe probe, compatibilityZeros read.count⟩
      match (List.finRange 2).find? fun index =>
          memory.nullStartupProbes[index] && read.is (.nullStartup index) with
      | some index =>
        (zeros (.nullStartup index),
          { memory with nullStartupProbes := memory.nullStartupProbes.set index false })
      | none =>
        match (List.finRange 4).find? fun index =>
            memory.kuserStartupProbes[index] && read.is (.kuserStartup index) with
        | some index =>
          (zeros (.kuserStartup index),
            { memory with kuserStartupProbes := memory.kuserStartupProbes.set index false })
        | none =>
          -- shapes of one address and one count are spent together, whichever is logged
          let stackBookkeeping := memory.stackBookkeeping && read.is .stackBookkeeping
          let codeBackscan := memory.codeBackscan && read.is .codeBackscan
          let codeLookahead := memory.codeLookahead && read.is .codeLookahead
          let spent := { memory with
            stackBookkeeping := if stackBookkeeping then false else memory.stackBookkeeping
            codeBackscan := if codeBackscan then false else memory.codeBackscan
            codeLookahead := if codeLookahead then false else memory.codeLookahead }
          if stackBookkeeping then (zeros .stackBookkeeping, spent)
          else if codeBackscan then (zeros .codeBackscan, spent)
          else if codeLookahead then (zeros .codeLookahead, spent)
          else (none, spent)

def armed (probe : Probe) (memory : CompatibilityMemory) : Bool :=
  match probe with
  | .nullStartup index => memory.nullStartupProbes[index]
  | .kuserStartup index => memory.kuserStartupProbes[index]
  | .stackBookkeeping => memory.stackBookkeeping
  | .codeBackscan => memory.codeBackscan
  | .codeLookahead => memory.codeLookahead

inductive Operation where
  | read (read : MemoryRead)
  | resetPeerProbes
  | onExecutionStop
deriving DecidableEq, Repr

def step (memory : CompatibilityMemory) : Operation → CompatibilityMemory
  | .read read => (memory.read read).2
  | .resetPeerProbes => memory.resetPeerProbes
  | .onExecutionStop => memory.onExecutionStop

def serves (probe : Probe) (memory : CompatibilityMemory) : Operation → Bool
  | .read read => (memory.read read).1.any (·.source == .probe probe)
  | _ => false

def asks (probe : Probe) : Operation → Bool
  | .read read => read.is probe
  | _ => false

/-- The operations that arm a probe again.  An execution stop arms the null-page and
KUSER probes along with clearing the others. -/
def rearms (probe : Probe) : Operation → Bool
  | .read _ => false
  | .resetPeerProbes => true
  | .onExecutionStop => probe.startup

/-- The startup shapes end below the last address and lie outside the thread page. -/
theorem outside_of_startup {read : MemoryRead} {probe : Probe} (hstartup : probe.startup = true)
    (hshape : read.is probe = true) :
    checkedAdd read.address read.count.toUInt64 =
        some (read.address + read.count.toUInt64) ∧
      insideThreadPage read (read.address + read.count.toUInt64) = false := by
  unfold insideThreadPage
  cases probe with
  | nullStartup index =>
    rw [is_nullStartup_iff] at hshape
    rw [hshape.1, hshape.2]
    clear hshape hstartup
    revert index
    decide
  | kuserStartup index =>
    rw [is_kuserStartup_iff] at hshape
    rw [hshape.1, hshape.2]
    clear hshape hstartup
    revert index
    decide
  | stackBookkeeping => cases hstartup
  | codeBackscan => cases hstartup
  | codeLookahead => cases hstartup

theorem serves_of_asks {memory : CompatibilityMemory} {probe : Probe} {operation : Operation}
    (hstartup : probe.startup = true) (harmed : memory.armed probe = true)
    (hasks : asks probe operation = true) : memory.serves probe operation = true := by
  cases operation with
  | resetPeerProbes => cases hasks
  | onExecutionStop => cases hasks
  | read read =>
    have hshape : read.is probe = true := hasks
    obtain ⟨hadd, hinside⟩ := outside_of_startup hstartup hshape
    change (memory.read read).1.any (·.source == .probe probe) = true
    unfold CompatibilityMemory.read
    rw [hadd]
    simp only [hinside, Bool.false_eq_true, if_false]
    cases probe with
    | nullStartup index =>
      have hnull : (List.finRange 2).find? (fun other =>
          memory.nullStartupProbes[other] && read.is (.nullStartup other)) = some index := by
        apply find?_finRange
        · exact Bool.and_eq_true_iff.mpr ⟨harmed, hshape⟩
        · intro other hother
          exact nullStartup_injective hshape (Bool.and_eq_true_iff.mp hother).2
      rw [hnull]
      simp
    | kuserStartup index =>
      have hnull : (List.finRange 2).find? (fun other =>
          memory.nullStartupProbes[other] && read.is (.nullStartup other)) = none := by
        rw [List.find?_eq_none]
        intro other _
        rw [not_nullStartup_of_kuserStartup hshape]
        simp
      have hkuser : (List.finRange 4).find? (fun other =>
          memory.kuserStartupProbes[other] && read.is (.kuserStartup other)) = some index := by
        apply find?_finRange
        · exact Bool.and_eq_true_iff.mpr ⟨harmed, hshape⟩
        · intro other hother
          exact kuserStartup_injective hshape (Bool.and_eq_true_iff.mp hother).2
      rw [hnull, hkuser]
      simp
    | stackBookkeeping => cases hstartup
    | codeBackscan => cases hstartup
    | codeLookahead => cases hstartup

/-- What answering a read from a probe does to the memory: its flag is cleared,
none is set, and of the startup probes no other is touched. -/
structure Spent (memory : CompatibilityMemory) (read : MemoryRead) (probe : Probe)
    (left : CompatibilityMemory) : Prop where
  mode : left.mode = memory.mode
  armed : memory.armed probe = true
  shape : read.is probe = true
  spent : left.armed probe = false
  disarms : ∀ other, left.armed other = true → memory.armed other = true
  keeps : ∀ other, other.startup = true → other ≠ probe → memory.armed other = true →
    left.armed other = true

theorem spent_nullStartup {memory : CompatibilityMemory} {read : MemoryRead} {index : Fin 2}
    (harmed : memory.nullStartupProbes[index] = true)
    (hshape : read.is (.nullStartup index) = true) :
    Spent memory read (.nullStartup index)
      { memory with nullStartupProbes := memory.nullStartupProbes.set index false } where
  mode := rfl
  armed := harmed
  shape := hshape
  spent := by simp [CompatibilityMemory.armed]
  disarms := by
    intro other
    cases other with
    | nullStartup other =>
      simp only [CompatibilityMemory.armed, Fin.getElem_fin, Vector.getElem_set]
      split
      · intro h
        cases h
      · exact id
    | _ => exact id
  keeps := by
    intro other _ hother hstill
    cases other with
    | nullStartup other =>
      have hne : index.val ≠ other.val := by
        intro heq
        apply hother
        rw [Fin.ext heq]
      simp only [CompatibilityMemory.armed, Fin.getElem_fin, Vector.getElem_set, if_neg hne]
      exact hstill
    | _ => exact hstill

theorem spent_kuserStartup {memory : CompatibilityMemory} {read : MemoryRead} {index : Fin 4}
    (harmed : memory.kuserStartupProbes[index] = true)
    (hshape : read.is (.kuserStartup index) = true) :
    Spent memory read (.kuserStartup index)
      { memory with kuserStartupProbes := memory.kuserStartupProbes.set index false } where
  mode := rfl
  armed := harmed
  shape := hshape
  spent := by simp [CompatibilityMemory.armed]
  disarms := by
    intro other
    cases other with
    | kuserStartup other =>
      simp only [CompatibilityMemory.armed, Fin.getElem_fin, Vector.getElem_set]
      split
      · intro h
        cases h
      · exact id
    | _ => exact id
  keeps := by
    intro other _ hother hstill
    cases other with
    | kuserStartup other =>
      have hne : index.val ≠ other.val := by
        intro heq
        apply hother
        rw [Fin.ext heq]
      simp only [CompatibilityMemory.armed, Fin.getElem_fin, Vector.getElem_set, if_neg hne]
      exact hstill
    | _ => exact hstill

theorem spent_redirected {memory : CompatibilityMemory} {read : MemoryRead} {probe : Probe}
    (hredirected : probe.startup = false) (harmed : memory.armed probe = true)
    (hshape : read.is probe = true) :
    Spent memory read probe { memory with
      stackBookkeeping :=
        if memory.stackBookkeeping && read.is .stackBookkeeping then false
        else memory.stackBookkeeping
      codeBackscan :=
        if memory.codeBackscan && read.is .codeBackscan then false else memory.codeBackscan
      codeLookahead :=
        if memory.codeLookahead && read.is .codeLookahead then false
        else memory.codeLookahead } where
  mode := rfl
  armed := harmed
  shape := hshape
  spent := by
    cases probe with
    | nullStartup index => cases hredirected
    | kuserStartup index => cases hredirected
    | stackBookkeeping => simp_all [CompatibilityMemory.armed]
    | codeBackscan => simp_all [CompatibilityMemory.armed]
    | codeLookahead => simp_all [CompatibilityMemory.armed]
  disarms := by
    intro other
    cases other with
    | nullStartup other => exact id
    | kuserStartup other => exact id
    | stackBookkeeping => simp +contextual [CompatibilityMemory.armed]
    | codeBackscan => simp +contextual [CompatibilityMemory.armed]
    | codeLookahead => simp +contextual [CompatibilityMemory.armed]
  keeps := by
    intro other hstartup _ hstill
    cases other with
    | nullStartup other => exact hstill
    | kuserStartup other => exact hstill
    | stackBookkeeping => cases hstartup
    | codeBackscan => cases hstartup
    | codeLookahead => cases hstartup

theorem redirected_cases {memory left : CompatibilityMemory} {read : MemoryRead}
    (hspent : ∀ probe, probe.startup = false → memory.armed probe = true →
      read.is probe = true → Spent memory read probe left)
    (hleft : (memory.stackBookkeeping && read.is .stackBookkeeping) = false →
      (memory.codeBackscan && read.is .codeBackscan) = false →
      (memory.codeLookahead && read.is .codeLookahead) = false → left = memory) :
    let zeros (probe : Probe) : Option Served := some ⟨.probe probe, compatibilityZeros read.count⟩
    let answer : Option Served × CompatibilityMemory :=
      if memory.stackBookkeeping && read.is .stackBookkeeping then (zeros .stackBookkeeping, left)
      else if memory.codeBackscan && read.is .codeBackscan then (zeros .codeBackscan, left)
      else if memory.codeLookahead && read.is .codeLookahead then (zeros .codeLookahead, left)
      else (none, left)
    answer = (none, memory) ∨
      ∃ probe left, answer = (zeros probe, left) ∧ Spent memory read probe left := by
  intro zeros answer
  unfold answer
  split
  · rename_i hstack
    have hmatch := Bool.and_eq_true_iff.mp hstack
    exact Or.inr ⟨_, _, rfl, hspent .stackBookkeeping rfl hmatch.1 hmatch.2⟩
  rename_i hstack
  split
  · rename_i hbackscan
    have hmatch := Bool.and_eq_true_iff.mp hbackscan
    exact Or.inr ⟨_, _, rfl, hspent .codeBackscan rfl hmatch.1 hmatch.2⟩
  rename_i hbackscan
  split
  · rename_i hlookahead
    have hmatch := Bool.and_eq_true_iff.mp hlookahead
    exact Or.inr ⟨_, _, rfl, hspent .codeLookahead rfl hmatch.1 hmatch.2⟩
  rename_i hlookahead
  rw [Bool.not_eq_true] at hstack hbackscan hlookahead
  rw [hleft hstack hbackscan hlookahead]
  exact Or.inl rfl

theorem read_cases (memory : CompatibilityMemory) (read : MemoryRead) :
    memory.read read = (none, memory) ∨
    (∃ past bytes, checkedAdd read.address read.count.toUInt64 = some past ∧
      insideThreadPage read past = true ∧
      memory.read read = (some ⟨.syntheticThread, bytes⟩, memory)) ∨
    ∃ probe left, memory.read read = (some ⟨.probe probe, compatibilityZeros read.count⟩, left) ∧
      Spent memory read probe left := by
  unfold CompatibilityMemory.read
  split
  · exact Or.inl rfl
  rename_i past hpast
  split
  · rename_i hinside
    exact Or.inr (Or.inl ⟨past, _, hpast, hinside, rfl⟩)
  simp only
  split
  · rename_i index hfind
    have hfound := List.find?_some hfind
    have hmatch := Bool.and_eq_true_iff.mp hfound
    exact Or.inr (Or.inr ⟨_, _, rfl, spent_nullStartup hmatch.1 hmatch.2⟩)
  split
  · rename_i index hfind
    have hfound := List.find?_some hfind
    have hmatch := Bool.and_eq_true_iff.mp hfound
    exact Or.inr (Or.inr ⟨_, _, rfl, spent_kuserStartup hmatch.1 hmatch.2⟩)
  apply Or.imp_right Or.inr
  apply redirected_cases
  · intro probe
    exact spent_redirected
  · intro hstack hbackscan hlookahead
    simp only [hstack, hbackscan, hlookahead, Bool.false_eq_true, if_false]

theorem serves_read {memory : CompatibilityMemory} {read : MemoryRead} {probe : Probe}
    (h : memory.serves probe (.read read) = true) :
    Spent memory read probe (memory.read read).2 := by
  change (memory.read read).1.any (·.source == .probe probe) = true at h
  obtain hnone | ⟨past, bytes, _, _, hthread⟩ | ⟨other, left, hanswer, hspent⟩ :=
    read_cases memory read
  · rw [hnone] at h
    cases h
  · rw [hthread] at h
    simp at h
  · rw [hanswer] at h ⊢
    have hother : other = probe := by simpa using h
    rw [← hother]
    exact hspent

theorem armed_read {memory : CompatibilityMemory} {read : MemoryRead} {probe : Probe}
    (h : (memory.read read).2.armed probe = true) : memory.armed probe = true := by
  obtain hnone | ⟨past, bytes, _, _, hthread⟩ | ⟨other, left, hanswer, hspent⟩ :=
    read_cases memory read
  · rwa [hnone] at h
  · rwa [hthread] at h
  · rw [hanswer] at h
    exact hspent.disarms probe h

@[simp] theorem armed_forStop_startup {probe : Probe} (mode : ArmMode)
    (hstartup : probe.startup = true) : (forStop mode).armed probe = true := by
  cases probe with
  | nullStartup index => simp [CompatibilityMemory.armed, forStop]
  | kuserStartup index => simp [CompatibilityMemory.armed, forStop]
  | stackBookkeeping => cases hstartup
  | codeBackscan => cases hstartup
  | codeLookahead => cases hstartup

@[simp] theorem armed_forStop_natural {probe : Probe} (hredirected : probe.startup = false) :
    (forStop .natural).armed probe = false := by
  cases probe with
  | nullStartup index => cases hredirected
  | kuserStartup index => cases hredirected
  | stackBookkeeping => rfl
  | codeBackscan => rfl
  | codeLookahead => rfl

theorem lawful (probe : Probe) :
    OneShot.Lawful step (armed probe) (serves probe) (rearms probe) where
  armed_of_serves := by
    intro memory operation hserves
    cases operation with
    | read read => exact (serves_read hserves).armed
    | resetPeerProbes => cases hserves
    | onExecutionStop => cases hserves
  spent := by
    intro memory operation hserves
    cases operation with
    | read read => exact (serves_read hserves).spent
    | resetPeerProbes => cases hserves
    | onExecutionStop => cases hserves
  stays := by
    intro memory operation hspent hquiet
    cases operation with
    | read read =>
      apply Bool.eq_false_iff.mpr
      intro harmed
      rw [armed_read harmed] at hspent
      cases hspent
    | resetPeerProbes => cases hquiet
    | onExecutionStop => exact armed_forStop_natural hquiet

theorem rearmed {probe : Probe} (hstartup : probe.startup = true)
    {memory : CompatibilityMemory} {operation : Operation}
    (h : rearms probe operation = true) : (memory.step operation).armed probe = true := by
  cases operation with
  | read read => cases h
  | resetPeerProbes => exact armed_forStop_startup memory.mode hstartup
  | onExecutionStop => exact armed_forStop_startup .natural hstartup

theorem spends {probe : Probe} (hstartup : probe.startup = true) :
    OneShot.Spends step (armed probe) (serves probe) := by
  constructor
  intro memory operation harmed hserves
  cases operation with
  | resetPeerProbes => exact rearmed hstartup rfl
  | onExecutionStop => exact armed_forStop_startup .natural hstartup
  | read read =>
    change (memory.read read).2.armed probe = true
    change (memory.read read).1.any (·.source == .probe probe) = false at hserves
    obtain hnone | ⟨past, bytes, _, _, hthread⟩ | ⟨other, left, hanswer, hspent⟩ :=
      read_cases memory read
    · rwa [hnone]
    · rwa [hthread]
    · rw [hanswer] at hserves ⊢
      apply hspent.keeps probe hstartup _ harmed
      intro heq
      simp [heq] at hserves

def Asked (probe : Probe) (operations : List Operation) : Prop :=
  ∃ operation ∈ operations, asks probe operation = true

theorem asked_of_served {memory : CompatibilityMemory} {probe : Probe}
    {operations : List Operation} (h : 0 < OneShot.served step (serves probe) memory operations) :
    Asked probe operations := by
  obtain ⟨visit, hvisit, hserves⟩ := OneShot.exists_serving h
  obtain ⟨before, hbefore, _⟩ := mem_visits hvisit
  refine ⟨visit.2, hbefore.subset (by simp), ?_⟩
  generalize visit.2 = operation at hserves ⊢
  cases operation with
  | read read => exact (serves_read hserves).shape
  | resetPeerProbes => cases hserves
  | onExecutionStop => cases hserves

/-- What the fabricated memory promises of a run: a probe is served at most once in
any stretch without a peer reset, a served read lies in the thread page or has one of
the exact shapes, and from an execution stop on no stack or code shape is served. -/
structure Confined (mode : ArmMode) (operations : List Operation) : Prop where
  once : ∀ front stretch back probe, operations = front ++ (stretch ++ back) →
    .resetPeerProbes ∉ stretch →
    OneShot.served step (serves probe) (run step (forStop mode) front) stretch ≤ 1
  shaped : ∀ memory read served, (memory, .read read) ∈ visits step (forStop mode) operations →
    (memory.read read).1 = some served →
    syntheticThread.toNat ≤ read.address.toNat ∧
        read.address.toNat + read.count.toNat ≤
          syntheticThread.toNat + compatibilityPageBytes.toNat ∨
      ∃ probe, read.is probe = true
  stopped : ∀ before after probe, operations = before ++ .onExecutionStop :: after →
    probe.startup = false →
    OneShot.served step (serves probe)
      (run step (forStop mode) (before ++ [.onExecutionStop])) after = 0

/-- No null-page or KUSER shape is asked for both before and after an execution stop
unless the peer resets in between. -/
def StopsApart (operations : List Operation) : Prop :=
  ∀ front before after back probe,
    operations = front ++ (before ++ .onExecutionStop :: (after ++ back)) →
    .resetPeerProbes ∉ before → .resetPeerProbes ∉ after → probe.startup = true →
    ¬(Asked probe before ∧ Asked probe after)

theorem toNat_of_checkedAdd {value other sum : UInt64} (h : checkedAdd value other = some sum) :
    sum.toNat = value.toNat + other.toNat := by
  unfold checkedAdd at h
  split at h
  · rename_i hfits
    rw [← Option.some.inj h, UInt64.toNat_add]
    exact Nat.mod_eq_of_lt hfits
  · cases h

theorem shape_of_answered {memory : CompatibilityMemory} {read : MemoryRead} {served : Served}
    (h : (memory.read read).1 = some served) :
    syntheticThread.toNat ≤ read.address.toNat ∧
        read.address.toNat + read.count.toNat ≤
          syntheticThread.toNat + compatibilityPageBytes.toNat ∨
      ∃ probe, read.is probe = true := by
  obtain hnone | ⟨past, bytes, hpast, hinside, _⟩ | ⟨probe, left, _, hspent⟩ :=
    read_cases memory read
  · rw [hnone] at h
    cases h
  · have hsum := toNat_of_checkedAdd hpast
    simp only [insideThreadPage, Bool.and_eq_true, decide_eq_true_eq] at hinside
    obtain ⟨⟨hfrom, hto⟩, _⟩ := hinside
    have hpage : (syntheticThread + compatibilityPageBytes).toNat =
        syntheticThread.toNat + compatibilityPageBytes.toNat := by decide
    rw [UInt32.toNat_toUInt64] at hsum
    apply Or.inl
    constructor
    · exact UInt64.le_iff_toNat_le.mp hfrom
    · rw [← hsum, ← hpage]
      exact UInt64.le_iff_toNat_le.mp hto
  · exact Or.inr ⟨probe, hspent.shape⟩

theorem mode_step_natural {memory : CompatibilityMemory} (operation : Operation)
    (hmode : memory.mode = .natural) : (memory.step operation).mode = .natural := by
  cases operation with
  | resetPeerProbes => exact hmode
  | onExecutionStop => rfl
  | read read =>
    change (memory.read read).2.mode = .natural
    obtain hnone | ⟨past, bytes, _, _, hthread⟩ | ⟨probe, left, hanswer, hspent⟩ :=
      read_cases memory read
    · rwa [hnone]
    · rwa [hthread]
    · rw [hanswer]
      exact hspent.mode.trans hmode

/-- At a stop the guest ran into by itself, not even a peer reset arms a stack or code
probe. -/
theorem armed_step_natural {memory : CompatibilityMemory} {probe : Probe}
    (operation : Operation) (hredirected : probe.startup = false)
    (hmode : memory.mode = .natural) (hspent : memory.armed probe = false) :
    (memory.step operation).armed probe = false := by
  cases operation with
  | read read => exact (lawful probe).stays hspent rfl
  | onExecutionStop => exact armed_forStop_natural hredirected
  | resetPeerProbes =>
    change (forStop memory.mode).armed probe = false
    rw [hmode]
    exact armed_forStop_natural hredirected

theorem served_after_stop {probe : Probe} (mode : ArmMode) (before after : List Operation)
    (hredirected : probe.startup = false) :
    OneShot.served step (serves probe)
      (run step (forStop mode) (before ++ [.onExecutionStop])) after = 0 := by
  rw [run_concat]
  unfold OneShot.served
  rw [List.countP_eq_zero]
  intro visit hvisit hserves
  have hinvariant := visits_invariant
    (fun memory => memory.mode = .natural ∧ memory.armed probe = false) (fun _ _ => True)
    (fun memory operation h _ => ⟨mode_step_natural operation h.1,
      armed_step_natural operation hredirected h.1 h.2⟩)
    (show (forStop .natural).mode = .natural ∧ (forStop .natural).armed probe = false from
      ⟨rfl, armed_forStop_natural hredirected⟩)
    (fun _ _ => trivial) visit hvisit
  rw [(lawful probe).armed_of_serves hserves] at hinvariant
  exact Bool.noConfusion hinvariant.2

theorem StopsApart.once {operations front stretch back : List Operation} {probe : Probe}
    (h : StopsApart operations) (mode : ArmMode)
    (hoperations : operations = front ++ (stretch ++ back))
    (hreset : .resetPeerProbes ∉ stretch) :
    OneShot.served step (serves probe) (run step (forStop mode) front) stretch ≤ 1 := by
  apply Nat.le_of_not_lt
  intro htwice
  obtain ⟨before, arming, after, hstretch, harming, hbefore, hafter⟩ :=
    (lawful probe).rearmed_between htwice
  rw [hstretch, List.mem_append, List.mem_cons, not_or, not_or] at hreset
  cases arming with
  | read read => cases harming
  | resetPeerProbes => exact hreset.2.1 rfl
  | onExecutionStop =>
    apply h front before after back probe _ hreset.1 hreset.2.2 harming
      ⟨asked_of_served hbefore, asked_of_served hafter⟩
    rw [hoperations, hstretch, List.append_assoc, List.cons_append]

theorem armed_of_asks {probe : Probe} {operation : Operation} (memory : CompatibilityMemory)
    (hstartup : probe.startup = true) (hasks : asks probe operation = true) :
    (memory.step operation).armed probe = false := by
  cases harmed : memory.armed probe with
  | true => exact (lawful probe).spent (serves_of_asks hstartup harmed hasks)
  | false =>
    cases operation with
    | read read => exact (lawful probe).stays harmed rfl
    | resetPeerProbes => cases hasks
    | onExecutionStop => cases hasks

theorem Confined.stopsApart {mode : ArmMode} {operations : List Operation}
    (h : Confined mode operations) : StopsApart operations := by
  intro front before after back probe hoperations hbefore hafter hstartup hasked
  obtain ⟨⟨asking, hmem, hasks⟩, hlater⟩ := hasked
  obtain ⟨early, late, hsplit⟩ := List.append_of_mem hmem
  have hspent : (run step (forStop mode) ((front ++ early) ++ [asking])).armed probe = false := by
    rw [run_concat]
    exact armed_of_asks _ hstartup hasks
  obtain ⟨start, since, hstart, hquiet, hserved⟩ :=
    (spends hstartup).served_since (rearmed hstartup) (armed_forStop_startup mode hstartup) hspent
  have hagain : 0 < OneShot.served step (serves probe) (forStop .natural) after :=
    (spends hstartup).served_of_asked (serves_of_asks hstartup)
      (armed_forStop_startup .natural hstartup) hlater
  have honce := h.once start (since ++ (late ++ .onExecutionStop :: after)) back probe
    (by
      calc operations
        _ = ((front ++ early) ++ [asking]) ++
            (late ++ .onExecutionStop :: (after ++ back)) := by simp [hoperations, hsplit]
        _ = start ++ ((since ++ (late ++ .onExecutionStop :: after)) ++ back) := by
          simp [hstart])
    (by
      rw [hsplit, List.mem_append, List.mem_cons, not_or, not_or] at hbefore
      simp only [List.mem_append, List.mem_cons, not_or]
      refine ⟨?_, hbefore.2.2, Operation.noConfusion, hafter⟩
      intro hreset
      have := hquiet _ hreset
      cases this)
  rw [OneShot.served_append, OneShot.served_append, OneShot.served_cons] at honce
  change _ + (_ + (OneShot.served step (serves probe) (forStop .natural) after + _)) ≤ 1 at honce
  omega

/-- The fabricated memory is confined along exactly the runs that keep their startup
probes on one side of an execution stop. -/
theorem confined_iff_stopsApart (mode : ArmMode) (operations : List Operation) :
    Confined mode operations ↔ StopsApart operations := by
  constructor
  · exact Confined.stopsApart
  · intro h
    constructor
    · intro front stretch back probe hoperations hreset
      exact h.once mode hoperations hreset
    · intro memory read served _ hanswered
      exact shape_of_answered hanswered
    · intro before after probe _ hredirected
      exact served_after_stop mode before after hredirected

/-- Between two peer resets the first null-page probe is served, the guest runs and
stops again, and the probe is served once more. -/
theorem execution_stop_serves_null_probe_again :
    OneShot.served step (serves (.nullStartup 0))
        (run step (forStop .redirect) [.resetPeerProbes])
        [.read ⟨0, 4, 0x8000, 0x9000, 5⟩, .onExecutionStop,
          .read ⟨0, 4, 0x8000, 0x9000, 5⟩] = 2 ∧
      ¬Confined .redirect
        [.resetPeerProbes, .read ⟨0, 4, 0x8000, 0x9000, 5⟩, .onExecutionStop,
          .read ⟨0, 4, 0x8000, 0x9000, 5⟩, .resetPeerProbes] := by
  have htwice : OneShot.served step (serves (.nullStartup 0))
      (run step (forStop .redirect) [.resetPeerProbes])
      [.read ⟨0, 4, 0x8000, 0x9000, 5⟩, .onExecutionStop,
        .read ⟨0, 4, 0x8000, 0x9000, 5⟩] = 2 := by decide
  refine ⟨htwice, ?_⟩
  intro h
  have honce := h.once [.resetPeerProbes]
    [.read ⟨0, 4, 0x8000, 0x9000, 5⟩, .onExecutionStop, .read ⟨0, 4, 0x8000, 0x9000, 5⟩]
    [.resetPeerProbes] (.nullStartup 0) rfl (by decide)
  rw [htwice] at honce
  omega

end CompatibilityMemory

end WindbgMcp.KdTarget
