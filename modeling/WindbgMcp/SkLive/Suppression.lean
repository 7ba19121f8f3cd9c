import WindbgMcp.SkLive.Stops

/-! RF over a release.  The restoration leaves TF and RF as the baseline has them, which is
clear; from there RF is set just when a new breakpoint is at the instruction the stop names.
For a stop before an instruction that is the stopped RIP; for a step it is the instruction
that was executed. -/
namespace WindbgMcp.SkLive
open Library SkControl Fallible

def showing {γ : Type} (view : VpControl → γ) (index : Nat) (session : LiveControl) : Option γ :=
  session.providers[index]?.map view

section
variable {world : World} {index : Nat} {session after : LiveControl} {γ : Type}
  {view : VpControl → γ}

/-! ### One exchange -/

theorem ask_ok {result : Unit} (h : Fallible.result (ask world) session = (.ok result, after)) :
    after = { session with exchanges := session.exchanges + 1 } := by
  unfold ask at h
  rw [result_bind, result_get] at h
  simp only at h
  rw [result_bind, result_set] at h
  simp only at h
  cases hrefuses : world.refuses session.exchanges with
  | none =>
    rw [hrefuses] at h
    cases h
    rfl
  | some why =>
    rw [hrefuses] at h
    cases h

theorem provider_ok {vp : VpControl}
    (h : Fallible.result (provider index) session = (.ok vp, after)) :
    session.providers[index]? = some vp ∧ after = session := by
  unfold provider at h
  rw [result_bind, result_get] at h
  exact elim_ok h

theorem readCurrent_ok {snapshot : RegisterSnapshot}
    (h : Fallible.result (readCurrent world index) session = (.ok snapshot, after)) :
    after.providers = session.providers ∧ ∃ vp, session.providers[index]? = some vp ∧
      snapshot.values = snapshotRegisters.map vp.value := by
  unfold readCurrent readSnapshot readRegisters at h
  obtain ⟨_, first, hfirst, h⟩ := bind_ok h
  rw [(provider_ok hfirst).2, result_bind, result_get] at h
  obtain ⟨values, second, hvalues, h⟩ := bind_ok h
  obtain ⟨_, third, hask, hvalues⟩ := bind_ok hvalues
  obtain ⟨vp, fourth, hvp, hvalues⟩ := bind_ok hvalues
  rw [ask_ok hask] at hvp
  obtain ⟨hfound, hfourth⟩ := provider_ok hvp
  rw [result_pure, Prod.mk.injEq] at hvalues
  obtain ⟨hcheck, hafter⟩ := lift_ok h
  rw [hafter, ← hvalues.2, hfourth]
  refine ⟨rfl, vp, hfound, ?_⟩
  unfold RegisterSnapshot.fromValues at hcheck
  simp only [bind_eq_ok] at hcheck
  obtain ⟨_, _, _, _, _, _, _, _, hsnapshot⟩ := hcheck
  cases hsnapshot
  exact (Except.ok.inj hvalues.1).symm

theorem keeps_readCurrent (view : VpControl → γ) (other : Nat) :
    Keeps (showing view index) (readCurrent world other) := by
  intro before snapshot after h
  unfold showing
  rw [(readCurrent_ok h).1]

theorem writeOne_ok {name : RegisterName} {expected value : Nat} {result : Unit}
    (h : Fallible.result (writeOne world index name expected value) session =
      (.ok result, after)) :
    ∃ vp, session.providers[index]? = some vp ∧ vp.low name = expected ∧
      after.providers = session.providers.set index (vp.put name value) := by
  unfold writeOne writeRegisters at h
  obtain ⟨written, first, hwrites, h⟩ := bind_ok h
  obtain ⟨_, second, hask, hwrites⟩ := bind_ok hwrites
  rw [List.mapM_cons, List.mapM_nil] at hwrites
  obtain ⟨one, third, hone, hwrites⟩ := bind_ok hwrites
  obtain ⟨vp, fourth, hvp, hone⟩ := bind_ok hone
  obtain ⟨_, fifth, hcompare, hone⟩ := bind_ok hone
  obtain ⟨_, sixth, hset, hone⟩ := bind_ok hone
  rw [ask_ok hask] at hvp
  obtain ⟨hfound, hfourth⟩ := provider_ok hvp
  obtain ⟨hcompared, hfifth⟩ := lift_ok hcompare
  refine ⟨vp, hfound, insist_eq_ok.mp hcompared, ?_⟩
  unfold setProvider at hset
  rw [hfifth, hfourth, result_modify, Prod.mk.injEq] at hset
  rw [result_pure, Prod.mk.injEq] at hone
  rw [result_bind, result_pure] at hwrites
  simp only [result_pure, Prod.mk.injEq] at hwrites
  rw [← Except.ok.inj hwrites.1] at h
  simp only at h
  rw [(lift_ok h).2, ← hwrites.2, ← hone.2, ← hset.2]

theorem keeps_writeOne {name : RegisterName}
    (hview : ∀ vp value, view (vp.put name value) = view vp) (expected value : Nat) :
    Keeps (showing view index) (writeOne world index name expected value) := by
  intro before result after h
  obtain ⟨vp, hvp, -, hafter⟩ := writeOne_ok h
  obtain ⟨hlt, -⟩ := List.getElem?_eq_some_iff.mp hvp
  unfold showing
  rw [hafter, List.getElem?_set_self hlt, hvp]
  simp [hview]

/-! ### Restoration -/

theorem keeps_baseline_writeOne (name : RegisterName) (expected value : Nat) :
    Keeps (showing VpControl.baseline index) (writeOne world index name expected value) :=
  keeps_writeOne (fun _ _ => rfl) expected value

theorem savedBaseline_ok {baseline : RegisterSnapshot} {missing : String}
    (h : Fallible.result (savedBaseline index missing) session = (.ok baseline, after)) :
    showing VpControl.baseline index session = some (some baseline) ∧ after = session := by
  unfold savedBaseline at h
  obtain ⟨vp, first, hvp, h⟩ := bind_ok h
  obtain ⟨hfound, hfirst⟩ := provider_ok hvp
  obtain ⟨hbaseline, hafter⟩ := elim_ok h
  unfold showing
  rw [hfound, Option.map_some, hbaseline, hafter, hfirst]
  exact ⟨rfl, rfl⟩

theorem keeps_disableBreakpoints (current : RegisterSnapshot) :
    Keeps (showing VpControl.baseline index) (disableBreakpoints world index current) := by
  unfold disableBreakpoints
  apply Keeps.bind (keeps_lift _)
  intro dr7
  exact keeps_baseline_writeOne _ _ _

theorem keeps_restoreDr7 (baseline : RegisterSnapshot) :
    Keeps (showing VpControl.baseline index) (restoreDr7 world index baseline) := by
  unfold restoreDr7
  apply Keeps.bind (keeps_readCurrent _ _)
  intro current
  apply Keeps.bind (keeps_lift _)
  intro disabled
  apply Keeps.bind (keeps_lift _)
  intro saved
  exact keeps_baseline_writeOne _ _ _

theorem keeps_rewriteNaturalControl (baseline : RegisterSnapshot) (owned : List RegisterName) :
    Keeps (showing VpControl.baseline index)
      (rewriteNaturalControl world index baseline owned) := by
  unfold rewriteNaturalControl
  apply Keeps.bind (keeps_readCurrent _ _)
  intro current
  apply Keeps.bind (keeps_disableBreakpoints _)
  intro _
  apply Keeps.bind (keeps_readCurrent _ _)
  intro current
  apply Keeps.bind (keeps_lift _)
  intro flags
  apply Keeps.bind (keeps_lift _)
  intro saved
  apply Keeps.bind (keeps_baseline_writeOne _ _ _)
  intro _
  apply Keeps.bind
  · apply keeps_forM
    intro name _
    apply Keeps.bind (keeps_readCurrent _ _)
    intro current
    apply Keeps.bind (keeps_lift _)
    intro held
    apply Keeps.bind (keeps_lift _)
    intro saved
    exact keeps_baseline_writeOne _ _ _
  · intro _
    exact keeps_restoreDr7 baseline

theorem low_snapshot {snapshot : RegisterSnapshot} {vp : VpControl} {name : RegisterName}
    (h : snapshot.values = snapshotRegisters.map vp.value) (hname : name ∈ snapshotRegisters) :
    snapshot.low name = .ok (vp.low name) := by
  unfold RegisterSnapshot.low RegisterSnapshot.value
  rw [h]
  revert name
  unfold snapshotRegisters VpControl.value
  simp [Functor.map, Except.map]

def Restored (index : Nat) (session : LiveControl) : Prop :=
  ∃ vp baseline saved, session.providers[index]? = some vp ∧ vp.baseline = some baseline ∧
    baseline.low .rflags = .ok saved ∧ vp.low .rflags &&& (tf ||| rf) = saved &&& (tf ||| rf)

theorem baseline_of_showing {vp : VpControl} {baseline : RegisterSnapshot}
    (h : showing VpControl.baseline index session = some (some baseline))
    (hvp : session.providers[index]? = some vp) : vp.baseline = some baseline := by
  unfold showing at h
  rw [hvp, Option.map_some] at h
  exact Option.some.inj h

theorem restoreNaturalControl_ok {result : Unit}
    (h : Fallible.result (restoreNaturalControl world index) session = (.ok result, after)) :
    Restored index after := by
  unfold restoreNaturalControl at h
  obtain ⟨baseline, first, hbaseline, h⟩ := bind_ok h
  rw [result_bind, result_get] at h
  obtain ⟨_, second, hrewrite, h⟩ := bind_ok h
  obtain ⟨restored, third, hread, h⟩ := bind_ok h
  obtain ⟨hshown, hfirst⟩ := savedBaseline_ok hbaseline
  obtain ⟨hcheck, hafter⟩ := lift_ok h
  obtain ⟨hproviders, vp, hvp, hvalues⟩ := readCurrent_ok hread
  rw [hfirst] at hrewrite
  have hkept := keeps_rewriteNaturalControl baseline _ session _ second hrewrite
  unfold checkNaturalControl at hcheck
  simp only [bind_eq_ok, insist_eq_ok] at hcheck
  obtain ⟨_, _, held, hheld, saved, hsaved, hsame⟩ := hcheck
  rw [low_snapshot hvalues (by decide)] at hheld
  obtain rfl := Except.ok.inj hheld
  refine ⟨vp, baseline, saved, ?_, ?_, hsaved, hsame⟩
  · rw [hafter, hproviders, hvp]
  · exact baseline_of_showing (hkept.trans hshown) hvp

theorem low_eq_of_matches {left right : RegisterSnapshot} {name : RegisterName}
    (h : session.matchesOutsideForeignSlots left right = true)
    (hname : name ∉ [RegisterName.dr0, .dr1, .dr2, .dr3]) : left.low name = right.low name := by
  unfold LiveControl.matchesOutsideForeignSlots at h
  simp only [Bool.and_eq_true, decide_eq_true_eq] at h
  obtain ⟨hlength, hall⟩ := h
  unfold RegisterSnapshot.low RegisterSnapshot.value
  congr 2
  generalize left.values = values at hlength hall
  generalize right.values = others at hlength hall
  induction values generalizing others with
  | nil =>
    rw [List.length_nil] at hlength
    rw [List.eq_nil_of_length_eq_zero hlength.symm]
  | cons value values ih =>
    cases others with
    | nil => cases hlength
    | cons other others =>
      rw [List.zip_cons_cons, List.all_cons, Bool.and_eq_true] at hall
      have hrest := ih others (Nat.succ.inj hlength) hall.2
      rw [List.find?_cons, List.find?_cons, hrest]
      simp only [Bool.or_eq_true, decide_eq_true_eq, Bool.and_eq_true] at hall
      rcases hall.1 with rfl | ⟨hsame, hforeign⟩
      · rfl
      · -- Both values are of one foreign slot, and neither is the one asked for.
        have hother : value.name ≠ name := by
          rintro rfl
          exact hname (List.contains_iff_mem.mp hforeign.1)
        rw [← hsame, decide_eq_false hother]

theorem keeps_redirectWrites (baseline current : RegisterSnapshot) (names : List RegisterName) :
    Keeps (showing VpControl.baseline index) (names.forM fun name => (do
      let held ← liftM (current.low name)
      let saved ← liftM (baseline.low name)
      writeOne world index name held saved : Live Unit)) := by
  apply keeps_forM
  intro name _
  apply Keeps.bind (keeps_lift _)
  intro held
  apply Keeps.bind (keeps_lift _)
  intro saved
  exact keeps_baseline_writeOne _ _ _

theorem restoreRedirectBaseline_ok {result : Unit}
    (h : Fallible.result (restoreRedirectBaseline world index) session = (.ok result, after)) :
    Restored index after := by
  unfold restoreRedirectBaseline at h
  obtain ⟨baseline, first, hbaseline, h⟩ := bind_ok h
  obtain ⟨current, second, hcurrent, h⟩ := bind_ok h
  obtain ⟨_, third, hdisable, h⟩ := bind_ok h
  rw [result_bind, result_get] at h
  obtain ⟨_, fourth, hwrites, h⟩ := bind_ok h
  obtain ⟨_, fifth, hdr7, h⟩ := bind_ok h
  obtain ⟨restored, sixth, hread, h⟩ := bind_ok h
  obtain ⟨hshown, hfirst⟩ := savedBaseline_ok hbaseline
  obtain ⟨hcheck, hafter⟩ := lift_ok h
  obtain ⟨hproviders, vp, hvp, hvalues⟩ := readCurrent_ok hread
  have hkept : showing VpControl.baseline index fifth = some (some baseline) := by
    rw [keeps_restoreDr7 baseline fourth _ fifth hdr7,
      keeps_redirectWrites baseline current _ third _ fourth hwrites,
      keeps_disableBreakpoints current second _ third hdisable,
      keeps_readCurrent _ _ first _ second hcurrent, hfirst, hshown]
  have hflags := low_eq_of_matches (insist_eq_ok.mp hcheck) (by decide : RegisterName.rflags ∉ _)
  rw [low_snapshot hvalues (by decide)] at hflags
  refine ⟨vp, baseline, vp.low .rflags, ?_, ?_, hflags.symm, rfl⟩
  · rw [hafter, hproviders, hvp]
  · exact baseline_of_showing hkept hvp

theorem restoreOwnedState_ok {result : Unit}
    (h : Fallible.result (restoreOwnedState world index) session = (.ok result, after)) :
    Restored index after := by
  unfold restoreOwnedState at h
  rw [result_bind, result_get] at h
  simp only at h
  split at h
  · cases h
  · exact restoreRedirectBaseline_ok h
  · exact restoreNaturalControl_ok h

/-! ### The release -/

theorem register_ne_rflags (slot : Nat) : breakpointRegister slot ≠ .rflags := by
  unfold breakpointRegister
  split <;> decide

theorem put_low {vp : VpControl} {name other : RegisterName} {value : Nat} (h : name ≠ other) :
    (vp.put name value).low other = vp.low other :=
  if_neg h.symm

theorem keeps_flags_writeOne {name : RegisterName} (h : name ≠ .rflags) (expected value : Nat) :
    Keeps (showing (VpControl.low · .rflags) index) (writeOne world index name expected value) :=
  keeps_writeOne (fun _ _ => put_low h) expected value

theorem keeps_installBreakpoints (baseline : RegisterSnapshot)
    (breakpoints : List BreakpointGuard) :
    Keeps (showing (VpControl.low · .rflags) index)
      (installBreakpoints world index baseline breakpoints) := by
  unfold installBreakpoints
  apply Keeps.bind (keeps_lift _)
  intro dr7
  apply Keeps.bind
  · apply keeps_forM
    intro breakpoint _
    apply Keeps.bind (keeps_lift _)
    intro held
    exact keeps_flags_writeOne (register_ne_rflags _) _ _
  · intro _
    apply Keeps.bind (keeps_lift _)
    intro dr6
    apply Keeps.bind (keeps_flags_writeOne (by decide) _ _)
    intro _
    exact keeps_flags_writeOne (by decide) _ _

theorem keeps_releaseProvider :
    Keeps (showing (VpControl.low · .rflags) index) (releaseProvider world index) := by
  unfold releaseProvider
  intro before result after h
  obtain ⟨vp, first, hvp, h⟩ := bind_ok h
  obtain ⟨hfound, hfirst⟩ := provider_ok hvp
  obtain ⟨hlt, -⟩ := List.getElem?_eq_some_iff.mp hfound
  rw [hfirst] at h
  have hrest : ∀ final, Fallible.result (do
      ask world
      setProvider index { vp with providerPhase := .running }
      world.releases.elim (pure ()) throw : Live Unit) before = (.ok result, final) →
      showing (VpControl.low · .rflags) index final =
        showing (VpControl.low · .rflags) index before := by
    intro final hrun
    obtain ⟨_, second, hask, hrun⟩ := bind_ok hrun
    obtain ⟨_, third, hset, hrun⟩ := bind_ok hrun
    unfold setProvider at hset
    rw [ask_ok hask, result_modify, Prod.mk.injEq] at hset
    have hfinal : final = third := by
      cases hreleases : world.releases with
      | none =>
        rw [hreleases] at hrun
        cases hrun
        rfl
      | some why =>
        rw [hreleases] at hrun
        cases hrun
    rw [hfinal, ← hset.2]
    unfold showing
    simp only
    rw [List.getElem?_set_self hlt, hfound]
    rfl
  split at h
  · cases h
  · exact hrest after h

/-- RF is set over the flags just where a new breakpoint is at the stop's instruction. -/
theorem suppressRepeat_ok {stop : StopRecord} {breakpoints : List BreakpointGuard} {result : Unit}
    {flags : Nat}
    (h : Fallible.result (suppressRepeat world index stop breakpoints) session =
      (.ok result, after))
    (hflags : showing (VpControl.low · .rflags) index session = some flags) :
    showing (VpControl.low · .rflags) index after =
      some (if ∃ breakpoint ∈ breakpoints,
          breakpoint.instruction.address = stop.instruction.address then flags ||| rf
        else flags) := by
  unfold suppressRepeat at h
  simp only [List.any_eq_true, decide_eq_true_eq] at h
  split at h
  · rename_i hmatch
    rw [if_pos hmatch]
    obtain ⟨current, first, hread, h⟩ := bind_ok h
    obtain ⟨held, second, hheld, h⟩ := bind_ok h
    obtain ⟨_, third, hclear, h⟩ := bind_ok h
    obtain ⟨hproviders, vp, hvp, hvalues⟩ := readCurrent_ok hread
    obtain ⟨hlow, hsecond⟩ := lift_ok hheld
    rw [low_snapshot hvalues (by decide)] at hlow
    obtain rfl := Except.ok.inj hlow
    obtain ⟨written, hwritten, -, hafter⟩ := writeOne_ok h
    rw [(lift_ok hclear).2, hsecond, hproviders, hvp] at hwritten
    obtain rfl := Option.some.inj hwritten
    obtain ⟨hlt, -⟩ := List.getElem?_eq_some_iff.mp hvp
    have hheldFlags : vp.low .rflags = flags := by
      unfold showing at hflags
      rw [hvp] at hflags
      exact Option.some.inj hflags
    unfold showing
    rw [hafter, (lift_ok hclear).2, hsecond, hproviders, List.getElem?_set_self hlt,
      Option.map_some, ← hheldFlags]
    rfl
  · rename_i hmatch
    rw [if_neg hmatch]
    cases h
    exact hflags

theorem rf_set (flags : Nat) : (flags ||| rf) &&& rf ≠ 0 := by
  intro h
  have hrf : rf.testBit 16 = true := by decide
  have hbit := congrArg (Nat.testBit · 16) h
  simp only [Nat.testBit_and, Nat.testBit_or, hrf, Bool.or_true, Bool.and_true,
    Nat.zero_testBit] at hbit
  cases hbit

theorem rf_clear {flags : Nat} (h : flags &&& (tf ||| rf) = 0) : flags &&& rf = 0 := by
  apply Nat.eq_of_testBit_eq
  intro i
  have hbit := congrArg (Nat.testBit · i) h
  simp only [Nat.testBit_and, Nat.testBit_or, Nat.zero_testBit, Bool.and_eq_false_imp,
    Bool.or_eq_false_iff] at hbit ⊢
  intro hflag
  exact (hbit hflag).2

theorem orFault_ok {α : Type} {action : Live α} {value : α}
    (h : Fallible.result (orFault action) session = (.ok value, after)) :
    Fallible.result action session = (.ok value, after) := by
  unfold orFault at h
  rw [result_tryCatch] at h
  split at h
  · rename_i heq
    rw [heq, h]
  · cases h

/-- The flags the VP is released with have RF set just where a new breakpoint is at the
stop's instruction. -/
theorem replaceBreakpoints_ok {stop : StopRecord} {breakpoints : List BreakpointGuard}
    {result : Unit}
    (h : Fallible.result (replaceBreakpoints world index stop breakpoints) session =
      (.ok result, after)) :
    ∃ flags, showing (VpControl.low · .rflags) index after = some flags ∧
      (flags &&& rf ≠ 0 ↔ ∃ breakpoint ∈ breakpoints,
        breakpoint.instruction.address = stop.instruction.address) := by
  unfold replaceBreakpoints at h
  obtain ⟨_, first, hrestore, h⟩ := bind_ok h
  obtain ⟨baseline, second, hbaseline, h⟩ := bind_ok h
  obtain ⟨saved, third, hsaved, h⟩ := bind_ok h
  obtain ⟨_, fourth, hclear, h⟩ := bind_ok h
  obtain ⟨_, fifth, hinstall, h⟩ := bind_ok h
  obtain ⟨_, sixth, hsuppress, hrelease⟩ := bind_ok h
  obtain ⟨vp, found, held, hvp, hfound, hheld, hsame⟩ := restoreOwnedState_ok hrestore
  obtain ⟨hshown, hsecond⟩ := savedBaseline_ok hbaseline
  obtain ⟨hsaved, hthird⟩ := lift_ok hsaved
  obtain ⟨hclear, hfourth⟩ := lift_ok hclear
  -- The baseline the flags were checked against is the one whose TF and RF are clear.
  rw [baseline_of_showing hshown hvp] at hfound
  obtain rfl := Option.some.inj hfound
  obtain rfl := Except.ok.inj (hheld.symm.trans hsaved)
  rw [insist_eq_ok.mp hclear] at hsame
  have hflags : showing (VpControl.low · .rflags) index fifth = some (vp.low .rflags) := by
    rw [keeps_installBreakpoints baseline breakpoints fourth _ fifth hinstall, hfourth, hthird,
      hsecond]
    unfold showing
    rw [hvp]
    rfl
  have hsuppressed := suppressRepeat_ok hsuppress hflags
  refine ⟨_, (keeps_releaseProvider sixth _ after hrelease).trans hsuppressed, ?_⟩
  split
  · rename_i hmatch
    exact iff_of_true (rf_set _) hmatch
  · rename_i hmatch
    exact iff_of_false (not_not_intro (rf_clear hsame)) hmatch

def Suppressed (index : Nat) (session : LiveControl) : Prop :=
  ∃ flags, showing (VpControl.low · .rflags) index session = some flags ∧ flags &&& rf ≠ 0

def BreaksAt (breakpoints : List BreakpointGuard) (address : Nat) : Prop :=
  ∃ breakpoint ∈ breakpoints, breakpoint.instruction.address = address

instance (breakpoints : List BreakpointGuard) (address : Nat) :
    Decidable (BreaksAt breakpoints address) :=
  inferInstanceAs (Decidable (∃ breakpoint ∈ breakpoints, _))

theorem requireStopEpoch_ok {epoch : StopEpoch} {stop found : StopRecord}
    (hstopped : session.state = .stopped stop)
    (h : session.requireStopEpoch epoch = .ok found) : found = stop := by
  unfold LiveControl.requireStopEpoch at h
  rw [hstopped] at h
  simp only [bind_eq_ok] at h
  obtain ⟨_, _, _, _, _, _, _, _, hfound⟩ := h
  cases hfound
  rfl

theorem continueToBreakpoints_ok {stop : StopRecord} {epoch next : StopEpoch}
    {breakpoints : List BreakpointGuard} (hstopped : session.state = .stopped stop)
    (h : Fallible.result (continueToBreakpoints world epoch breakpoints) session =
      (.ok next, after)) :
    ∃ active, session.activeProvider = some active ∧
      (Suppressed active after ↔ BreaksAt breakpoints stop.instruction.address) := by
  unfold continueToBreakpoints continueWithBreakpoints at h
  obtain ⟨_, first, hvalid, h⟩ := bind_ok h
  rw [(lift_ok hvalid).2, result_bind, result_get] at h
  obtain ⟨_, second, hreserved, h⟩ := bind_ok h
  obtain ⟨found, third, hfound, h⟩ := bind_ok h
  obtain ⟨_, fourth, hsingle, h⟩ := bind_ok h
  obtain ⟨_, fifth, hverified, h⟩ := bind_ok h
  obtain ⟨serial, sixth, hserial, h⟩ := bind_ok h
  obtain ⟨active, seventh, hactive, h⟩ := bind_ok h
  rw [result_bind, result_modify] at h
  obtain ⟨_, eighth, hreplace, h⟩ := bind_ok h
  rw [requireStopEpoch_ok hstopped (lift_ok hfound).1] at hreplace
  obtain ⟨flags, hflags, hiff⟩ := replaceBreakpoints_ok (orFault_ok hreplace)
  refine ⟨active, (elim_ok hactive).1, ?_⟩
  simp only [result_bind, result_modify, result_pure, Prod.mk.injEq] at h
  have hafter : showing (VpControl.low · .rflags) active after = some flags := by
    rw [← h.2, ← hflags]
    rfl
  constructor
  · rintro ⟨released, hreleased, hset⟩
    obtain rfl := Option.some.inj (hafter.symm.trans hreleased)
    exact hiff.mp hset
  · intro hbreaks
    exact ⟨flags, hafter, hiff.mpr hbreaks⟩

/-! ### The instruction a stop names -/

def ExpectedStop.isStep : ExpectedStop → Bool
  | .singleStep _ _ _ | .stepOver _ _ _ => true
  | _ => false

theorem low_withRip {snapshot : RegisterSnapshot} {rip held : Nat}
    (h : snapshot.low .rip = .ok held) : (snapshot.withRip rip).low .rip = .ok rip := by
  unfold RegisterSnapshot.low RegisterSnapshot.value RegisterSnapshot.withRip at *
  obtain ⟨value, hvalue, -⟩ := map_eq_ok.mp h
  have hfound := elim_eq_ok.mp hvalue
  have hname : value.name = .rip := by simpa using List.find?_some hfound
  have hmapped : (snapshot.values.map fun value =>
      if value.name = .rip then { value with low := rip } else value).find?
        (fun value => value.name = .rip) = some { value with low := rip } := by
    rw [List.find?_map]
    have hsame : ((fun value : RegisterValue => decide (value.name = .rip)) ∘
        fun value => if value.name = .rip then { value with low := rip } else value) =
          fun value => decide (value.name = .rip) := by
      funext other
      simp only [Function.comp_apply]
      split
      · rename_i hother
        simp only [hother]
      · rfl
    rw [hsame, hfound, Option.map_some, if_pos hname]
  simp only
  rw [hmapped]
  rfl

theorem validateHardwareStop_ok {event : HeldEvent} {registers : RegisterSnapshot}
    {requested : Option Nat} {evidence : Evidence}
    (h : session.validateHardwareStop event registers requested = .ok evidence) :
    registers.low .rip = .ok evidence.2.1.address := by
  unfold LiveControl.validateHardwareStop at h
  simp only [bind_eq_ok, insist_eq_ok] at h
  obtain ⟨_, _, _, _, _, _, breakpoint, _, rip, hrip, _, _, _, _, _, ⟨hsame, _, _⟩, h⟩ := h
  cases h
  rw [hrip, hsame]

theorem recordStop_ok {observed : Observed} {expected : ExpectedStop} {epoch : StopEpoch}
    {first : RegisterSnapshot} {stop : StopRecord}
    (h : Fallible.result (recordStop world index observed expected epoch first) session =
      (.ok stop, after)) :
    ∃ rip, stop.registers.low .rip = .ok rip ∧
      (expected.isStep = false → stop.instruction.address = rip) := by
  unfold recordStop at h
  rw [result_bind, result_get] at h
  obtain ⟨⟨reason, instruction, rips⟩, second, hevidence, h⟩ := bind_ok h
  obtain ⟨registers, third, hregisters, h⟩ := bind_ok h
  obtain ⟨vp, fourth, hvp, h⟩ := bind_ok h
  obtain ⟨armMode, fifth, harm, h⟩ := bind_ok h
  obtain ⟨hevidence, -⟩ := lift_ok hevidence
  rw [result_pure, Prod.mk.injEq] at h
  rw [← Except.ok.inj h.1]
  simp only
  unfold LiveControl.validateStopRegisters at hevidence
  simp only [bind_eq_ok, insist_eq_ok] at hevidence
  obtain ⟨_, _, _, _, hevidence⟩ := hevidence
  unfold stopRegisters at hregisters
  cases expected with
  | hardware =>
    cases hregisters
    exact ⟨_, validateHardwareStop_ok hevidence, fun _ => rfl⟩
  | breakRequest slot =>
    cases hregisters
    exact ⟨_, validateHardwareStop_ok hevidence, fun _ => rfl⟩
  | singleStep source allowed cr3 =>
    cases hregisters
    unfold LiveControl.validateSingleStep at hevidence
    simp only [bind_eq_ok] at hevidence
    obtain ⟨_, _, rip, hrip, _⟩ := hevidence
    exact ⟨rip, hrip, nofun⟩
  | stepOver source destination slot =>
    obtain ⟨_, released, _, hregisters⟩ := bind_ok hregisters
    cases hregisters
    unfold LiveControl.validateStepOver at hevidence
    simp only [bind_eq_ok] at hevidence
    obtain ⟨_, _, _, _, rip, hrip, _⟩ := hevidence
    exact ⟨rip, hrip, nofun⟩
  | software instructions cr3 =>
    unfold restartSoftwareStop at hregisters
    obtain ⟨_, sixth, _, hregisters⟩ := bind_ok hregisters
    obtain ⟨_, seventh, _, hregisters⟩ := bind_ok hregisters
    obtain ⟨rip, eighth, hrip, hregisters⟩ := bind_ok hregisters
    obtain ⟨_, ninth, _, hregisters⟩ := bind_ok hregisters
    simp only [result_bind, result_modify, result_pure, Prod.mk.injEq] at hregisters
    rw [← Except.ok.inj hregisters.1]
    exact ⟨_, low_withRip (lift_ok hrip).1, fun _ => rfl⟩

theorem waitForStop_ok {observed : Observed} {expected : ExpectedStop} {stop : StopRecord}
    (hexpected : session.expectedStop = some expected)
    (h : Fallible.result (waitForStop world observed) session = (.ok stop, after)) :
    after.state = .stopped stop ∧ ∃ rip, stop.registers.low .rip = .ok rip ∧
      (expected.isStep = false → stop.instruction.address = rip) := by
  unfold waitForStop at h
  rw [result_bind, result_get] at h
  obtain ⟨_, second, _, h⟩ := bind_ok h
  obtain ⟨next, third, _, h⟩ := bind_ok h
  obtain ⟨found, fourth, hfound, h⟩ := bind_ok h
  obtain ⟨active, fifth, _, h⟩ := bind_ok h
  obtain ⟨_, sixth, _, h⟩ := bind_ok h
  obtain ⟨vp, seventh, _, h⟩ := bind_ok h
  obtain ⟨_, eighth, _, h⟩ := bind_ok h
  obtain ⟨_, ninth, _, h⟩ := bind_ok h
  obtain ⟨record, tenth, hrecord, h⟩ := bind_ok h
  obtain ⟨first, eleventh, _, hrecord⟩ := bind_ok (orFault_ok hrecord)
  simp only [result_bind, result_modify, result_pure, Prod.mk.injEq] at h
  obtain rfl := Except.ok.inj h.1
  have hsame := Option.some.inj ((elim_ok hfound).1.symm.trans hexpected)
  rw [hsame] at hrecord
  refine ⟨?_, recordStop_ok hrecord⟩
  rw [← h.2]

/-- From an accepted stop, a continuation releases the VP with RF set just where a new
breakpoint is at the stopped RIP if and only if the new breakpoints do not tell the
instruction the stop names from that RIP. -/
theorem released_suppressed_iff {world other : World} {observed : Observed}
    {before session : LiveControl} {expected : ExpectedStop} {stop : StopRecord}
    (hexpected : before.expectedStop = some expected)
    (haccepted : (Fallible.result (waitForStop world observed) before).1 = .ok stop)
    (hstopped : session.state = .stopped stop) {epoch next : StopEpoch}
    {breakpoints : List BreakpointGuard}
    (hok : (Fallible.result (continueToBreakpoints other epoch breakpoints) session).1 =
      .ok next) :
    ∃ rip active, stop.registers.low .rip = .ok rip ∧ session.activeProvider = some active ∧
      (expected.isStep = false → stop.instruction.address = rip) ∧
      ((Suppressed active
          (Fallible.result (continueToBreakpoints other epoch breakpoints) session).2 ↔
            BreaksAt breakpoints rip) ↔
        (BreaksAt breakpoints stop.instruction.address ↔ BreaksAt breakpoints rip)) := by
  obtain ⟨-, rip, hrip, hnames⟩ := waitForStop_ok hexpected (Prod.ext haccepted rfl)
  obtain ⟨active, hactive, hiff⟩ := continueToBreakpoints_ok hstopped (Prod.ext hok rfl)
  exact ⟨rip, active, hrip, hactive, hnames, iff_congr hiff Iff.rfl⟩

end

/-! A VP that was stepped over the instruction at 0x1000 and stopped at the next one. -/

def steppedRegisters : RegisterName → Nat
  | .rip => 0x1003
  | .rsp => 0x8000
  | .rflags => 0x102
  | .cr3 => 0x5000
  | .cs => 0x10
  | .dr6 => 0x4000
  | .dr7 => 0x400
  | _ => 0

def savedRegisters : RegisterName → Nat
  | .rip => 0x1000
  | .rflags => 0x2
  | .dr6 => 0
  | name => steppedRegisters name

def steppedTarget : TargetIdentity := ⟨"00000000-0000-0000-0000-000000000001", 1, 0, 1, 0x5000⟩

def steppedSource : InstructionGuard := ⟨0x1000, [0x48, 0x89, 0xd8]⟩

def steppingSession : LiveControl where
  providers := [{
    target := steppedTarget
    low := steppedRegisters
    high := fun _ => 0
    providerPhase := .running
    baseline := some ⟨snapshotRegisters.map fun name => ⟨name, 0, savedRegisters name, 0⟩⟩
    observedCr3 := some 0x5000 }]
  activeProvider := some 0
  epochNonce := "0123456789abcdef"
  epochSerial := 1
  publicEpoch := ⟨"control-0123456789abcdef-running-0000000000000001"⟩
  state := .running
  breakpoints := [⟨0, steppedSource⟩]
  armMode := some .natural
  dispatcherContext := some 0x7000
  softwareBreakpointContext := none
  dispatcherEvent := none
  expectedStop := some (.singleStep steppedSource [0x1003] 0x5000)
  softwareRestartRipUnproved := false
  allowTransitionCr3 := false
  reservedSlots := 0
  exchanges := 0

def steppedEvent : HeldEvent where
  messageType := 0x01000002
  vector := 1
  vp := 0
  vtl := 1
  cpl := 0
  dispatcherContext := 0x7000
  advanceInstructionPointer := false
  reason := .debugException

def steppedObserved : Observed where
  event := steppedEvent
  instructions := []
  echoed := steppedEvent
  late := false
  bindsCr3 := none
  singleProcessorScope := true
  preservesPageTableMapping := fun _ => .ok true
  restoresSoftwareBreakpoints := none

def agreeingWorld : World := ⟨fun _ => none, fun _ => none, none⟩

def steppedEpoch : StopEpoch := ⟨"control-0123456789abcdef-stopped-0000000000000002"⟩

def steppedStop : StopRecord where
  epoch := steppedEpoch
  target := steppedTarget
  event := { steppedEvent with reason := .singleStep }
  registers := ⟨snapshotRegisters.map fun name => ⟨name, 0, steppedRegisters name, 0⟩⟩
  instruction := steppedSource
  expectedRips := [0x1003]
  armMode := .natural

def steppedSession : LiveControl :=
  (Fallible.result (waitForStop agreeingWorld steppedObserved) steppingSession).2

def resumedEpoch : StopEpoch := ⟨"control-0123456789abcdef-running-0000000000000003"⟩

def nextBreakpoints : List BreakpointGuard := [⟨0, ⟨0x1003, [0x90]⟩⟩]

theorem stepped_accepted :
    (Fallible.result (waitForStop agreeingWorld steppedObserved) steppingSession).1 =
      .ok steppedStop := by
  decide +kernel

theorem stepped_resumed :
    (Fallible.result (continueToBreakpoints agreeingWorld steppedEpoch nextBreakpoints)
      steppedSession).1 = .ok resumedEpoch := by
  decide +kernel

theorem stepped_stopped : steppedSession.state = .stopped steppedStop := by
  decide +kernel

/-- Where the new breakpoint is at the stopped RIP and the stop names the instruction before
it, RF stays clear. -/
theorem stepped_unsuppressed :
    (Fallible.result (waitForStop agreeingWorld steppedObserved) steppingSession).1 =
        .ok steppedStop ∧
      (Fallible.result (continueToBreakpoints agreeingWorld steppedEpoch nextBreakpoints)
        steppedSession).1 = .ok resumedEpoch ∧
      steppedStop.registers.low .rip = .ok 0x1003 ∧
      ¬ (Suppressed 0 (Fallible.result
          (continueToBreakpoints agreeingWorld steppedEpoch nextBreakpoints) steppedSession).2 ↔
        BreaksAt nextBreakpoints 0x1003) := by
  refine ⟨stepped_accepted, stepped_resumed, by decide, ?_⟩
  have hflags : showing (VpControl.low · .rflags) 0 (Fallible.result
      (continueToBreakpoints agreeingWorld steppedEpoch nextBreakpoints) steppedSession).2 =
        some 0x2 := by
    decide +kernel
  intro hiff
  obtain ⟨flags, hshown, hset⟩ := hiff.mpr (by decide)
  obtain rfl := Option.some.inj (hflags.symm.trans hshown)
  exact hset (by decide)

theorem released_suppressed_example :
    ∃ rip active, steppedStop.registers.low .rip = .ok rip ∧
      steppedSession.activeProvider = some active ∧
      ((ExpectedStop.singleStep steppedSource [0x1003] 0x5000).isStep = false →
        steppedStop.instruction.address = rip) ∧
      ((Suppressed active (Fallible.result
          (continueToBreakpoints agreeingWorld steppedEpoch nextBreakpoints) steppedSession).2 ↔
            BreaksAt nextBreakpoints rip) ↔
        (BreaksAt nextBreakpoints steppedStop.instruction.address ↔
          BreaksAt nextBreakpoints rip)) :=
  released_suppressed_iff rfl stepped_accepted stepped_stopped stepped_resumed

end WindbgMcp.SkLive
