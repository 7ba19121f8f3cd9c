import WindbgMcp.Library.Run
import WindbgMcp.SkDispatch.Writes

/-! What a paused guest's edits leave to undo.  The range of every write is owed before a
byte of it may land, so the ranges owed, written back newest first, always give the memory
the edits began from; the patches, read before any of them is written, each hold it. -/
namespace WindbgMcp.SkDispatch
open Library SecureKernel SkLive UndoLog

/-! ### Prepared ranges -/

def PreparedMemoryWrite.saved (write : PreparedMemoryWrite) : Saved UInt8 :=
  ⟨write.gpa, write.original⟩

def log (writes : List PreparedMemoryWrite) : List (Saved UInt8) :=
  writes.map PreparedMemoryWrite.saved

/-- The range lies in one page, and is where its address translates to. -/
structure Located (memory : LiveGuestMemory) (write : PreparedMemoryWrite) : Prop where
  translates : memory.space.translate write.address = some write.gpa
  room : offsetInPage write.address + write.original.length ≤ pageSize
  below : write.address + write.original.length < 2 ^ 64
  replaces : write.replacement.length = write.original.length

section
variable {memory : LiveGuestMemory} {physical : Nat → UInt8} {write : PreparedMemoryWrite}

theorem readSpan_holds {answers : Answers} {address gpa size : Nat} {bytes : List UInt8}
    (h : memory.readSpan physical answers address size = .ok bytes)
    (htranslate : memory.space.translate address = some gpa)
    (hroom : offsetInPage address + size ≤ pageSize) (hbelow : address + size < 2 ^ 64) :
    bytes.length = size ∧ (Saved.mk gpa bytes).Holds physical := by
  unfold LiveGuestMemory.readSpan at h
  simp only at h
  split at h
  · cases h
  · obtain ⟨hlength, hbytes⟩ :=
      Space.readSpan_bytes_of_paged memory.paged (mapError_eq_ok.mp h)
    refine ⟨hlength, ?_⟩
    rintro a ⟨hstart, hend⟩
    simp only at hstart hend ⊢
    obtain ⟨frame, hframe, hbyte⟩ := hbytes (a - gpa) (by omega)
    rw [offsetInPage_eq] at hroom
    have hthere := memory.paged.translate_add (by omega) htranslate
      (by omega : address % pageSize + (a - gpa) < pageSize)
    have hsame : frame = a := by
      have := Option.some.inj (hframe.symm.trans hthere)
      omega
    rw [hbyte, hsame]
    rfl

theorem Located.verified {answers : Answers} {operation : String} (hlocated : Located memory write)
    (h : memory.verifyVirtual physical answers write.address write.original operation = .ok ()) :
    write.saved.Holds physical := by
  unfold LiveGuestMemory.verifyVirtual at h
  obtain ⟨observed, hread, hinsist⟩ := bind_eq_ok.mp h
  have hread := mapError_eq_ok.mp hread
  have hholds := (readSpan_holds hread hlocated.translates hlocated.room hlocated.below).2
  rw [insist_eq_ok.mp hinsist] at hholds
  exact hholds

theorem rewrite_outside {exchange : Exchange} {bytes : List UInt8} {operation : String}
    (hlength : bytes.length = write.original.length) {a : Nat} (h : ¬ write.saved.Covers a) :
    (memory.rewrite physical exchange write bytes operation).2 a = physical a := by
  have houtside : ¬ (write.gpa ≤ a ∧ a < write.gpa + bytes.length) := by
    rw [hlength]
    exact h
  unfold LiveGuestMemory.rewrite
  simp only
  split
  · exact put_outside houtside
  · exact put_outside houtside

theorem Located.rewritten {exchange : Exchange} {operation : String} {after : Nat → UInt8}
    (hlocated : Located memory write)
    (h : memory.rewrite physical exchange write write.original operation = (.ok (), after)) :
    write.saved.Holds after := by
  unfold LiveGuestMemory.rewrite at h
  simp only at h
  split at h
  · cases h
  · rw [Prod.mk.injEq] at h
    apply hlocated.verified
    rw [← h.2]
    exact h.1

theorem prepareGuardedWrite_ok {answers : Answers} {request : GuardedMemoryWrite}
    (h : memory.prepareGuardedWrite physical answers request = .ok write) :
    Located memory write ∧ write.saved.Holds physical := by
  unfold LiveGuestMemory.prepareGuardedWrite GuardedMemoryWrite.validate at h
  simp only [bind_eq_ok, mapError_eq_ok, insist_eq_ok, elim_eq_ok, exists_const] at h
  obtain ⟨⟨_, ⟨_, _, hlength⟩, _, hbelow⟩, _, _, _, hvirtual, gpa, htranslate, _, observed, hread,
    hobserved, hprepared⟩ := h
  cases hprepared
  rw [hobserved] at hread ⊢
  refine ⟨⟨htranslate, ?_, hbelow, hlength.symm⟩, ?_⟩
  · rw [hlength]
    exact hvirtual
  · apply (readSpan_holds hread htranslate _ hbelow).2
    rw [hlength]
    exact hvirtual

end

def Held.Locates (held : Held) (write : PreparedMemoryWrite) : Prop :=
  ∃ memory, held.state.memory = some memory ∧ Located memory write

theorem Held.Locates.located {held : Held} {write : PreparedMemoryWrite}
    {memory : LiveGuestMemory} (h : held.Locates write)
    (hmemory : held.state.memory = some memory) : Located memory write := by
  obtain ⟨found, hfound, hlocated⟩ := h
  rwa [Option.some.inj (hfound.symm.trans hmemory)] at hlocated

theorem Held.Locates.memory_ne_none {held : Held} {write : PreparedMemoryWrite}
    (h : held.Locates write) : held.state.memory ≠ none := by
  obtain ⟨memory, hmemory, -⟩ := h
  rw [hmemory]
  exact Option.some_ne_none memory

theorem Held.prepareGuardedWrite_ok {held : Held} {answers : Answers}
    {request : GuardedMemoryWrite} {write : PreparedMemoryWrite}
    (h : held.prepareGuardedWrite answers request = .ok write) :
    held.Locates write ∧ write.saved.Holds held.physical := by
  unfold Held.prepareGuardedWrite at h
  simp only [bind_eq_ok, insist_eq_ok, elim_eq_ok, exists_const] at h
  obtain ⟨_, _, memory, hmemory, prepared, hprepared, _, hwrite⟩ := h
  cases hwrite
  obtain ⟨hlocated, hholds⟩ := SkDispatch.prepareGuardedWrite_ok hprepared
  exact ⟨⟨memory, hmemory, hlocated⟩, hholds⟩

/-! ### Guarded writes -/

structure Owed (start : Nat → UInt8) (held : Held) : Prop where
  locates : ∀ write ∈ held.state.memoryWrites, held.Locates write
  undoes : undo (log held.state.memoryWrites) held.physical = start

structure Ready (start : Nat → UInt8) (held : Held) (write : PreparedMemoryWrite) : Prop where
  locates : held.Locates write
  sound : Sound start (log held.state.memoryWrites) write.saved

section
variable {start : Nat → UInt8} {held : Held} {write : PreparedMemoryWrite}

theorem Owed.ready (h : Owed start held) {answers : Answers} {request : GuardedMemoryWrite}
    (hprepare : held.prepareGuardedWrite answers request = .ok write) : Ready start held write := by
  obtain ⟨hlocates, hholds⟩ := Held.prepareGuardedWrite_ok hprepare
  exact ⟨hlocates, sound_of_holds h.undoes hholds⟩

theorem Owed.push (h : Owed start held) (hready : Ready start held write)
    {physical : Nat → UInt8} (hother : ∀ a, ¬ write.saved.Covers a → physical a = held.physical a) :
    Owed start
      ⟨{ held.state with memoryWrites := write :: held.state.memoryWrites }, physical⟩ where
  locates := List.forall_mem_cons.mpr ⟨hready.locates, h.locates⟩
  undoes := undo_push h.undoes hready.sound hother

theorem Ready.push {other : PreparedMemoryWrite} (h : Ready start held other)
    (physical : Nat → UInt8) :
    Ready start ⟨{ held.state with memoryWrites := write :: held.state.memoryWrites }, physical⟩
      other :=
  ⟨h.locates, h.sound.cons write.saved⟩

/-- Whatever became of a write, what is owed still undoes to the start, and what else was
prepared may still be applied. -/
theorem applyGuardedWrite_owed (h : Owed start held) (hready : Ready start held write)
    (exchange : Exchange) :
    Owed start (held.applyGuardedWrite exchange write).2 ∧
      ∀ other, Ready start held other →
        Ready start (held.applyGuardedWrite exchange write).2 other := by
  unfold Held.applyGuardedWrite
  split
  · exact ⟨h, fun _ hother => hother⟩
  · split
    · rename_i hnone
      exact absurd hnone hready.locates.memory_ne_none
    · rename_i memory hmemory
      constructor
      · apply h.push hready
        intro a houtside
        exact rewrite_outside (hready.locates.located hmemory).replaces houtside
      · intro other hother
        exact hother.push _

theorem restoreWritesFrom_owed (turns : Nat → Held.Turn) {turn : Nat}
    {pending : List PreparedMemoryWrite} (h : Owed start held)
    (hpending : held.state.memoryWrites = pending) :
    Owed start (Held.restoreWritesFrom turns turn pending held).2 ∧
      (Held.restoreWritesFrom turns turn pending held).2.state.memoryWrites <:+ pending ∧
      ((Held.restoreWritesFrom turns turn pending held).1 = .ok () →
        (Held.restoreWritesFrom turns turn pending held).2.state.memoryWrites = []) := by
  induction pending generalizing turn held with
  | nil =>
    have hnone : held.state.memoryWrites <:+ [] := List.suffix_nil.mpr hpending
    exact ⟨h, hnone, fun _ => hpending⟩
  | cons write older ih =>
    have hhere : held.state.memoryWrites <:+ write :: older := hpending ▸ List.suffix_refl _
    have hlocates := h.locates
    have hundoes := h.undoes
    rw [hpending] at hlocates hundoes
    obtain ⟨hnewest, holder⟩ := List.forall_mem_cons.mp hlocates
    unfold Held.restoreWritesFrom
    split
    · exact ⟨h, hhere, nofun⟩
    · split
      · exact ⟨h, hhere, nofun⟩
      rename_i memory hmemory
      have hlocated := hnewest.located hmemory
      cases hrewrite : memory.rewrite held.physical (turns turn).exchange write write.original
          "guarded live VTL1 rollback read-back" with
      | mk outcome physical =>
        have houtside : ∀ a, ¬ write.saved.Covers a → physical a = held.physical a := by
          intro a ha
          have := @rewrite_outside memory held.physical write (turns turn).exchange write.original
            "guarded live VTL1 rollback read-back" rfl a ha
          rwa [hrewrite] at this
        have hwritten : undo (log (write :: older)) physical = start := by
          rw [← hundoes]
          exact undo_written houtside
        cases outcome with
        | error why =>
          refine ⟨⟨h.locates, ?_⟩, hhere, nofun⟩
          simp only [hpending]
          exact hwritten
        | ok result =>
          have hpopped : Owed start ⟨{ held.state with memoryWrites := older }, physical⟩ := by
            refine ⟨holder, ?_⟩
            rw [← hwritten]
            exact (undo_pop (hlocated.rewritten hrewrite)).symm
          obtain ⟨howed, hsuffix, hempty⟩ := @ih _ (turn + 1) hpopped rfl
          exact ⟨howed, hsuffix.trans (List.suffix_cons write older), hempty⟩

/-! An exchange whose bytes all arrive and whose reads all answer. -/

structure Exchange.Complete (exchange : Exchange) : Prop where
  lands : ∀ i, exchange.lands i = true
  accepted : exchange.refusal = none
  answers : ∀ gpa length, exchange.answers.fails gpa length = none
  timely : exchange.answers.late = none

theorem readFrom_answered {source : Source}
    (h : ∀ gpa length, ∃ chunk, source.readChunk gpa length = .ok chunk)
    (gpa done remaining : Nat) : ∃ bytes, source.readFrom gpa done remaining = .ok bytes := by
  induction remaining using Nat.strongRecOn generalizing done with
  | ind remaining ih =>
    unfold Source.readFrom
    split
    · exact ⟨[], rfl⟩
    · simp only
      obtain ⟨chunk, hchunk⟩ := h (offset gpa done) (min (max source.maxRead 1) remaining)
      obtain ⟨rest, hrest⟩ := ih (remaining - min (max source.maxRead 1) remaining) (by omega)
        (done + min (max source.maxRead 1) remaining)
      rw [hchunk, hrest]
      exact ⟨chunk ++ rest, rfl⟩

theorem Located.readSpan_answered {memory : LiveGuestMemory} {physical : Nat → UInt8}
    {answers : Answers} (hlocated : Located memory write)
    (hfails : ∀ gpa length, answers.fails gpa length = none) (hlate : answers.late = none) :
    ∃ bytes, memory.readSpan physical answers write.address write.original.length = .ok bytes := by
  have hbelow := hlocated.below
  have hroom := hlocated.room
  rw [offsetInPage_eq] at hroom
  have hfits : Space.Fits write.address write.original.length := by
    unfold Space.Fits
    omega
  have hchunks : ∀ gpa length, ∃ chunk,
      (answers.source physical).readChunk gpa length = .ok chunk := by
    intro gpa length
    unfold Answers.source
    simp only [hfails gpa length]
    exact ⟨_, rfl⟩
  have hreadable : ∀ i < write.original.length,
      Space.Readable ⟨answers.source physical, memory.space⟩ (offset write.address (0 + i)) := by
    intro i hi
    rw [Space.offset_of_fits hfits hi]
    have htranslate := memory.paged.translate_add (by omega) hlocated.translates
      (by omega : write.address % pageSize + i < pageSize)
    obtain ⟨frame, hframe⟩ := Option.isSome_iff_exists.mp
      (memory.paged.starts (by omega : write.address + i < 2 ^ 64) htranslate)
    obtain ⟨bytes, hbytes⟩ := readFrom_answered hchunks frame 0 pageSize
    exact ⟨frame, bytes, hframe, hbytes⟩
  obtain ⟨bytes, hbytes⟩ := Space.readPages_of_readable hreadable
  unfold LiveGuestMemory.readSpan
  rw [Space.readSpan_eq hfits]
  simp only [hlate, hbytes]
  exact ⟨bytes, rfl⟩

theorem Located.rewrite_complete {memory : LiveGuestMemory} {exchange : Exchange}
    (hlocated : Located memory write) (h : exchange.Complete) (physical : Nat → UInt8)
    (operation : String) :
    (memory.rewrite physical exchange write write.original operation).1 = .ok () := by
  have hwritten : put write.gpa write.original exchange.lands physical =
      write.saved.rewrite physical := by
    unfold Saved.rewrite PreparedMemoryWrite.saved
    congr 1
    funext i
    exact h.lands i
  obtain ⟨bytes, hread⟩ := @Located.readSpan_answered write memory
    (write.saved.rewrite physical) exchange.answers hlocated h.answers h.timely
  obtain ⟨hlength, hholds⟩ :=
    readSpan_holds hread hlocated.translates hlocated.room hlocated.below
  have hsame : bytes = write.original := by
    apply Saved.cells_eq_of_holds hlength hholds
    exact Saved.holds_rewrite write.saved physical
  unfold LiveGuestMemory.rewrite
  simp only [h.accepted, hwritten]
  unfold LiveGuestMemory.verifyVirtual
  rw [hread, hsame]
  exact insist_eq_ok.mpr rfl

theorem restoreWritesFrom_complete {turns : Nat → Held.Turn} {turn : Nat}
    {pending : List PreparedMemoryWrite}
    (hturns : ∀ i, (turns i).expired = false ∧ (turns i).exchange.Complete)
    (hlocates : ∀ write ∈ pending, held.Locates write) :
    (Held.restoreWritesFrom turns turn pending held).1 = .ok () := by
  induction pending generalizing turn held with
  | nil => rfl
  | cons write older ih =>
    obtain ⟨hnewest, holder⟩ := List.forall_mem_cons.mp hlocates
    obtain ⟨hexpired, hcomplete⟩ := hturns turn
    unfold Held.restoreWritesFrom
    rw [if_neg (by rw [hexpired]; exact Bool.false_ne_true)]
    split
    · rename_i hnone
      exact absurd hnone hnewest.memory_ne_none
    · rename_i memory hmemory
      have hok := (hnewest.located hmemory).rewrite_complete hcomplete
        held.physical "guarded live VTL1 rollback read-back"
      split
      · rename_i why physical hrewrite
        rw [hrewrite] at hok
        cases hok
      · exact ih holder

theorem restoreMemoryWrites_owed (h : Owed start held) (turns : Nat → Held.Turn) :
    Owed start (held.restoreMemoryWrites turns).2 ∧
      (held.restoreMemoryWrites turns).2.state.memoryWrites <:+ held.state.memoryWrites ∧
      ((held.restoreMemoryWrites turns).1 = .ok () →
        (held.restoreMemoryWrites turns).2.state.memoryWrites = []) :=
  restoreWritesFrom_owed turns h rfl

end

inductive WriteCall where
  | prepare (answers : Answers) (write : GuardedMemoryWrite)
  | apply (exchange : Exchange) (write : PreparedMemoryWrite)
  | restore (turns : Nat → Held.Turn)

/-- The dispatcher with the writes prepared and not given up. -/
structure Pause where
  held : Held
  prepared : List PreparedMemoryWrite

/-- Only what was prepared is applied, and as often as it is asked for.  The one caller
applies what it prepares at once, so nothing prepared outlives a restoration. -/
def Pause.step (pause : Pause) : WriteCall → Pause
  | .prepare answers write =>
    match pause.held.prepareGuardedWrite answers write with
    | .ok prepared => { pause with prepared := prepared :: pause.prepared }
    | .error _ => pause
  | .apply exchange write =>
    if write ∈ pause.prepared then
      { pause with held := (pause.held.applyGuardedWrite exchange write).2 }
    else pause
  | .restore turns => ⟨(pause.held.restoreMemoryWrites turns).2, []⟩

structure Pause.Sound (start : Nat → UInt8) (pause : Pause) : Prop where
  owed : Owed start pause.held
  ready : ∀ write ∈ pause.prepared, Ready start pause.held write

theorem Pause.Sound.step {start : Nat → UInt8} {pause : Pause} (h : pause.Sound start)
    (call : WriteCall) : (pause.step call).Sound start := by
  cases call with
  | prepare answers write =>
    unfold Pause.step
    simp only
    split
    · rename_i prepared hprepare
      exact ⟨h.owed, List.forall_mem_cons.mpr ⟨h.owed.ready hprepare, h.ready⟩⟩
    · exact h
  | apply exchange write =>
    unfold Pause.step
    simp only
    split
    · rename_i hmem
      obtain ⟨howed, hready⟩ := applyGuardedWrite_owed h.owed (h.ready write hmem) exchange
      exact ⟨howed, fun other hother => hready other (h.ready other hother)⟩
    · exact h
  | restore turns => exact ⟨(restoreMemoryWrites_owed h.owed turns).1, List.forall_mem_nil _⟩

theorem Pause.Sound.run {start : Nat → UInt8} {pause : Pause} (h : pause.Sound start)
    (calls : List WriteCall) : (Library.run Pause.step pause calls).Sound start :=
  run_invariant (Pause.Sound start) (fun _ _ => True) (fun _ call hsound _ => hsound.step call) h
    (fun _ _ => trivial)

theorem run_owed (state : VmwpDispatcherState) (physical : Nat → UInt8) (calls : List WriteCall) :
    Owed physical
      (Library.run Pause.step ⟨⟨{ state with memoryWrites := [] }, physical⟩, []⟩ calls).held := by
  have hstart : Pause.Sound physical ⟨⟨{ state with memoryWrites := [] }, physical⟩, []⟩ :=
    ⟨⟨List.forall_mem_nil _, rfl⟩, List.forall_mem_nil _⟩
  exact (hstart.run calls).owed

/-! ### Software breakpoints -/

/-- Every patch was read from the memory at the start, which nothing else differs from. -/
structure Patched (start : Nat → UInt8) (held : Held) : Prop where
  locates : ∀ patch ∈ held.state.softwareBreakpoints, held.Locates patch
  snapshot : Snapshot start (log held.state.softwareBreakpoints) held.physical

section
variable {start : Nat → UInt8} {held : Held}

theorem preparePatches_ok {answers : Nat → Answers} {prepared patches : List PreparedMemoryWrite}
    {instructions : List InstructionGuard}
    (h : held.preparePatches answers prepared instructions = .ok patches)
    (hprepared : ∀ patch ∈ prepared, held.Locates patch ∧ patch.saved.Holds held.physical) :
    ∀ patch ∈ patches, held.Locates patch ∧ patch.saved.Holds held.physical := by
  induction instructions generalizing prepared with
  | nil =>
    cases h
    exact hprepared
  | cons instruction instructions ih =>
    unfold Held.preparePatches at h
    simp only [bind_eq_ok] at h
    obtain ⟨_, _, _, _, patch, hpatch, _, _, hrest⟩ := h
    apply ih hrest
    intro other hother
    rcases List.mem_append.mp hother with hother | hother
    · exact hprepared other hother
    · rw [List.mem_singleton.mp hother]
      exact Held.prepareGuardedWrite_ok hpatch

theorem armPatches_patched (exchanges : Nat → Exchange) {turn : Nat}
    {patches : List PreparedMemoryWrite} (h : Patched start held)
    (hpatches : ∀ patch ∈ patches, held.Locates patch ∧ patch.saved.Holds start) :
    Patched start (Held.armPatches exchanges turn patches held).2 := by
  induction patches generalizing turn held with
  | nil => exact h
  | cons patch patches ih =>
    obtain ⟨⟨hlocates, hholds⟩, hlater⟩ := List.forall_mem_cons.mp hpatches
    unfold Held.armPatches
    simp only
    split
    · rename_i hnone
      exact absurd hnone hlocates.memory_ne_none
    · rename_i memory hmemory
      have hlocated := hlocates.located hmemory
      cases hrewrite : memory.rewrite held.physical (exchanges turn) patch patch.replacement
          "software breakpoint patch read-back" with
      | mk outcome physical =>
        have houtside : ∀ a, ¬ patch.saved.Covers a → physical a = held.physical a := by
          intro a ha
          have := @rewrite_outside memory held.physical patch (exchanges turn) patch.replacement
            "software breakpoint patch read-back" hlocated.replaces a ha
          rwa [hrewrite] at this
        have hpushed : Patched start ⟨{ held.state with
            softwareBreakpoints := patch :: held.state.softwareBreakpoints }, physical⟩ :=
          ⟨List.forall_mem_cons.mpr ⟨hlocates, h.locates⟩,
            (h.snapshot.push hholds).written houtside⟩
        cases outcome with
        | error why => exact hpushed
        | ok result =>
          apply ih hpushed
          intro other hother
          exact hlater other hother

theorem armSoftwareBreakpoints_patched (h : Patched start held) (answers : Nat → Answers)
    (exchanges : Nat → Exchange) (instructions : List InstructionGuard) :
    Patched start (held.armSoftwareBreakpoints answers exchanges instructions).2 := by
  unfold Held.armSoftwareBreakpoints
  split
  · exact h
  · rename_i patches hprepare
    obtain ⟨_, hcheck, hpatches⟩ := bind_eq_ok.mp hprepare
    unfold Held.checkArming at hcheck
    simp only [bind_eq_ok, insist_eq_ok] at hcheck
    -- Nothing is armed yet, so the patches were read from the memory at the start.
    obtain ⟨_, _, _, _, _, _, _, _, _, hnone, _⟩ := hcheck
    have hsnapshot := h.snapshot
    rw [hnone] at hsnapshot
    apply armPatches_patched exchanges h
    rw [← snapshot_nil.mp hsnapshot]
    exact preparePatches_ok hpatches (List.forall_mem_nil _)

theorem restorePatchesFrom_patched (turns : Nat → Held.Turn) {turn : Nat}
    {pending : List PreparedMemoryWrite} (h : Patched start held)
    (hpending : held.state.softwareBreakpoints = pending) :
    Patched start (Held.restorePatchesFrom turns turn pending held).2 ∧
      (Held.restorePatchesFrom turns turn pending held).2.state.softwareBreakpoints <:+ pending ∧
      ((Held.restorePatchesFrom turns turn pending held).1 = .ok () →
        (Held.restorePatchesFrom turns turn pending held).2.state.softwareBreakpoints = []) := by
  induction pending generalizing turn held with
  | nil =>
    have hnone : held.state.softwareBreakpoints <:+ [] := List.suffix_nil.mpr hpending
    exact ⟨h, hnone, fun _ => hpending⟩
  | cons patch older ih =>
    have hhere : held.state.softwareBreakpoints <:+ patch :: older :=
      hpending ▸ List.suffix_refl _
    have hlocates := h.locates
    have hsnapshot := h.snapshot
    rw [hpending] at hlocates hsnapshot
    obtain ⟨hnewest, holder⟩ := List.forall_mem_cons.mp hlocates
    have hpop : ∀ physical, Snapshot start (log (patch :: older)) physical →
        patch.saved.Holds physical →
        Patched start ⟨{ held.state with softwareBreakpoints := older }, physical⟩ :=
      fun physical hsnap hholds => ⟨holder, hsnap.pop hholds⟩
    unfold Held.restorePatchesFrom
    simp only
    split
    · exact ⟨h, hhere, nofun⟩
    · split
      · exact ⟨h, hhere, nofun⟩
      rename_i memory hmemory
      have hlocated := hnewest.located hmemory
      split
      · exact ⟨h, hhere, nofun⟩
      · rename_i current hread
        split
        · -- The original is there already.
          rename_i hsame
          rw [hsame] at hread
          have hholds := (readSpan_holds hread hlocated.translates hlocated.room hlocated.below).2
          obtain ⟨hpatched, hsuffix, hempty⟩ :=
            @ih _ (turn + 1) (hpop held.physical hsnapshot hholds) rfl
          exact ⟨hpatched, hsuffix.trans (List.suffix_cons patch older), hempty⟩
        · split
          · exact ⟨h, hhere, nofun⟩
          · cases hrewrite : memory.rewrite held.physical (turns turn).exchange patch
                patch.original "software breakpoint restoration read-back" with
            | mk outcome physical =>
              have houtside : ∀ a, ¬ patch.saved.Covers a → physical a = held.physical a := by
                intro a ha
                have := @rewrite_outside memory held.physical patch (turns turn).exchange
                  patch.original "software breakpoint restoration read-back" rfl a ha
                rwa [hrewrite] at this
              have hwritten := hsnapshot.written houtside
              cases outcome with
              | error why =>
                refine ⟨⟨h.locates, ?_⟩, hhere, nofun⟩
                simp only [hpending]
                exact hwritten
              | ok result =>
                have hholds := hlocated.rewritten hrewrite
                obtain ⟨hpatched, hsuffix, hempty⟩ :=
                  @ih _ (turn + 1) (hpop physical hwritten hholds) rfl
                exact ⟨hpatched, hsuffix.trans (List.suffix_cons patch older), hempty⟩

theorem restoreSoftwareBreakpoints_patched (h : Patched start held) (turns : Nat → Held.Turn) :
    Patched start (held.restoreSoftwareBreakpoints turns).2 ∧
      (held.restoreSoftwareBreakpoints turns).2.state.softwareBreakpoints <:+
        held.state.softwareBreakpoints ∧
      ((held.restoreSoftwareBreakpoints turns).1 = .ok () →
        (held.restoreSoftwareBreakpoints turns).2.state.softwareBreakpoints = []) := by
  unfold Held.restoreSoftwareBreakpoints
  split
  · exact ⟨h, List.suffix_refl _, nofun⟩
  · exact restorePatchesFrom_patched turns h rfl

end

inductive PatchCall where
  | arm (answers : Nat → Answers) (exchanges : Nat → Exchange)
      (instructions : List InstructionGuard)
  | restore (turns : Nat → Held.Turn)

def Held.patchStep (held : Held) : PatchCall → Held
  | .arm answers exchanges instructions =>
    (held.armSoftwareBreakpoints answers exchanges instructions).2
  | .restore turns => (held.restoreSoftwareBreakpoints turns).2

theorem Patched.run {start : Nat → UInt8} {held : Held} (h : Patched start held)
    (calls : List PatchCall) : Patched start (Library.run Held.patchStep held calls) := by
  apply run_invariant (Patched start) (fun _ _ => True) _ h (fun _ _ => trivial)
  intro before call hbefore _
  cases call with
  | arm answers exchanges instructions =>
    exact armSoftwareBreakpoints_patched hbefore answers exchanges instructions
  | restore turns => exact (restoreSoftwareBreakpoints_patched hbefore turns).1

/-! ### Restoration -/

/-- A restoration that succeeds gives back `start` and leaves nothing pending.  One that
fails keeps every range that may differ from `start` pending, and a later one that
succeeds gives it back. -/
def Undone (start : Nat → UInt8) (pending : Held → List PreparedMemoryWrite)
    (restore : Held → (Nat → Held.Turn) → Except Failure Unit × Held) (held : Held) : Prop :=
  ∀ turns,
    (∀ after, restore held turns = (.ok (), after) →
      after.physical = start ∧ pending after = []) ∧
    ∀ why after, restore held turns = (.error why, after) →
      pending after <:+ pending held ∧
      (∀ a, Outside (log (pending after)) a → after.physical a = start a) ∧
      ∀ again last, restore after again = (.ok (), last) →
        last.physical = start ∧ pending last = []

/-- An invariant that a restoration keeps, and that says what is pending accounts for
every byte that differs from `start`. -/
theorem undone_of_invariant {start : Nat → UInt8} {pending : Held → List PreparedMemoryWrite}
    {restore : Held → (Nat → Held.Turn) → Except Failure Unit × Held}
    (invariant : Held → Prop)
    (hoccupied : ∀ held, invariant held →
      ∀ a, Outside (log (pending held)) a → held.physical a = start a)
    (hrestore : ∀ held turns, invariant held → invariant (restore held turns).2 ∧
      pending (restore held turns).2 <:+ pending held ∧
      ((restore held turns).1 = .ok () → pending (restore held turns).2 = []))
    {held : Held} (h : invariant held) : Undone start pending restore held := by
  have hok : ∀ before turns after, invariant before → restore before turns = (.ok (), after) →
      after.physical = start ∧ pending after = [] := by
    intro before turns after hbefore hsame
    obtain ⟨hafter, -, hempty⟩ := hrestore before turns hbefore
    rw [hsame] at hafter hempty
    refine ⟨?_, hempty rfl⟩
    funext a
    apply hoccupied after hafter
    rw [hempty rfl]
    exact List.forall_mem_nil _
  intro turns
  refine ⟨fun after => hok held turns after h, ?_⟩
  intro why after hsame
  obtain ⟨hafter, hsuffix, -⟩ := hrestore held turns h
  rw [hsame] at hafter hsuffix
  exact ⟨hsuffix, hoccupied after hafter, fun again last => hok after again last hafter⟩

theorem Owed.outside {start : Nat → UInt8} {held : Held} (h : Owed start held) (a : Nat)
    (houtside : Outside (log held.state.memoryWrites) a) : held.physical a = start a := by
  rw [← h.undoes, undo_outside houtside]

/-- After any calls that edit the memory of a paused guest, of guarded writes from an empty
list of them or of software breakpoints from an empty list of those, whatever of each write
landed and whichever calls failed, the restoration undoes the edits exactly. -/
theorem edits_undone (state : VmwpDispatcherState) (physical : Nat → UInt8) :
    (∀ calls : List WriteCall,
      Undone physical (·.state.memoryWrites) Held.restoreMemoryWrites
        (run Pause.step ⟨⟨{ state with memoryWrites := [] }, physical⟩, []⟩ calls).held) ∧
    ∀ calls : List PatchCall,
      Undone physical (·.state.softwareBreakpoints) Held.restoreSoftwareBreakpoints
        (run Held.patchStep ⟨{ state with softwareBreakpoints := [] }, physical⟩ calls) := by
  constructor
  · intro calls
    apply undone_of_invariant (Owed physical) (fun held h => h.outside)
      (fun held turns h => restoreMemoryWrites_owed h turns)
    exact run_owed state physical calls
  · intro calls
    apply undone_of_invariant (Patched physical) (fun held h => h.snapshot.agrees)
      (fun held turns h => restoreSoftwareBreakpoints_patched h turns)
    have hstart : Patched physical ⟨{ state with softwareBreakpoints := [] }, physical⟩ :=
      ⟨List.forall_mem_nil _, snapshot_nil.mpr rfl⟩
    exact hstart.run calls

/-- And there is a restoration that succeeds: one whose exchanges are all complete, in time.
It leaves the memory as the calls found it. -/
theorem restoreMemoryWrites_complete (state : VmwpDispatcherState) (physical : Nat → UInt8)
    (calls : List WriteCall) (turns : Nat → Held.Turn)
    (hturns : ∀ i, (turns i).expired = false ∧ (turns i).exchange.Complete) :
    let restored := (run Pause.step ⟨⟨{ state with memoryWrites := [] }, physical⟩, []⟩
      calls).held.restoreMemoryWrites turns
    restored.1 = .ok () ∧ restored.2.physical = physical := by
  intro restored
  have howed := run_owed state physical calls
  have hok : restored.1 = .ok () := restoreWritesFrom_complete hturns howed.locates
  obtain ⟨hafter, -, hempty⟩ := restoreMemoryWrites_owed howed turns
  refine ⟨hok, funext fun a => hafter.outside a ?_⟩
  rw [hempty hok]
  exact List.forall_mem_nil _

namespace Sample

def space : AddressSpace := ⟨[⟨0x7000, 0x3000, 0x1000⟩]⟩

theorem translate_leaf {leaf : Leaf} {va gpa : Nat} :
    (AddressSpace.mk [leaf]).translate va = some gpa ↔
      leaf.va ≤ va ∧ va - leaf.va < leaf.size ∧ offset leaf.gpa (va - leaf.va) = gpa := by
  unfold AddressSpace.translate AddressSpace.partitionPoint
  by_cases hva : leaf.va ≤ va
  · simp [hva, checkedSub]
  · simp [hva, checkedSub]

theorem translate_space {va gpa : Nat} :
    space.translate va = some gpa ↔ 0x7000 ≤ va ∧ va < 0x8000 ∧ gpa = va - 0x7000 + 0x3000 := by
  unfold space
  rw [translate_leaf]
  simp only [offset]
  constructor
  · rintro ⟨hlow, hhigh, rfl⟩
    omega
  · rintro ⟨hlow, hhigh, rfl⟩
    omega

theorem paged_space : space.Paged where
  starts := by
    intro va gpa hva htranslate
    obtain ⟨hlow, hhigh, -⟩ := translate_space.mp htranslate
    have hpage : page va = 0x7000 := by
      rw [page_eq hva]
      unfold pageSize
      omega
    rw [hpage, translate_space.mpr ⟨le_rfl, by decide, rfl⟩]
    rfl
  whole := by
    intro va gpa distance haligned htranslate hdistance
    obtain ⟨hlow, hhigh, rfl⟩ := translate_space.mp htranslate
    unfold pageSize at haligned hdistance
    have hva : va = 0x7000 := by omega
    subst hva
    exact ⟨⟨by decide, by decide⟩, translate_space.mpr ⟨by omega, by omega, by omega⟩⟩

def answers : Answers := ⟨0x1000, fun _ _ => none, none⟩

def state : VmwpDispatcherState where
  allowMemoryWrites := true
  memory := some ⟨some 0x100, space, paged_space⟩
  vmPaused := true
  providerWritesQuiesced := true
  vmProcessorCount := some 1
  retainedVector := none
  memoryWrites := []
  softwareBreakpoints := []

end Sample

/-- A write that lands and is refused for all that is undone as well. -/
theorem restoreMemoryWrites_complete_refused :
    let restored := (run Pause.step ⟨⟨Sample.state, fun _ => 0x90⟩, []⟩
      [.prepare Sample.answers ⟨0x7010, [0x90], [0xcc]⟩,
        .apply ⟨fun _ => true, some "the pipe closed", Sample.answers⟩
          ⟨0x7010, 0x3010, [0x90], [0xcc]⟩]).held.restoreMemoryWrites
        fun _ => ⟨false, Sample.answers, ⟨fun _ => true, none, Sample.answers⟩⟩
    restored.1 = .ok () ∧ restored.2.physical = fun _ => 0x90 :=
  restoreMemoryWrites_complete Sample.state _ _ _
    fun _ => ⟨rfl, fun _ => rfl, rfl, fun _ _ => rfl, rfl⟩

end WindbgMcp.SkDispatch
