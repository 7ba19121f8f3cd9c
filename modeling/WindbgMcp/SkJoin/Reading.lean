import WindbgMcp.SkJoin.Claims

/-! What the join reads of an event: a tick where the clock admits its sample, of a VTL0 hit its
fields where it can be of the selected service, and what a chain compares only where one can.  The
rest of an event changes nothing of what is decided. -/
namespace WindbgMcp.SkJoin
open WindbgMcp.Library WindbgMcp.Correlate
open WindbgMcp.Structured (HostQpcSample)

def Clock.read (clock : Clock) (sample : Option HostQpcSample) : Option HostQpcSample :=
  if clock.point then sample.filter fun sample => some sample.frequency == clock.frequency
  else none

def M4Event.read (clock : Clock) (event : M4Event) : M4Event :=
  { event with
    hostQpc := if event.candidate then clock.read event.hostQpc else none
    transitionKind := if event.selected then event.transitionKind else none
    service := if event.selected then event.service else none
    argumentBlock := if event.selected then event.argumentBlock else none }

def M5Event.read (clock : Clock) (event : M5Event) : M5Event :=
  { event with hostQpc := if event.role.isSome then clock.read event.hostQpc else none }

def PhaseStamp.read (clock : Clock) (needed : Bool) (stamp : PhaseStamp) : PhaseStamp :=
  ⟨if needed then clock.read stamp.hostQpc else none⟩

def M6Event.isWhole (record : M6Event) : Bool :=
  record.complete && record.entry.isSome && record.dispatch.isSome && record.returned.isSome

def Clock.phaseTick (clock : Clock) (phase : Option PhaseStamp) : Option Nat :=
  clock.tick (phase.bind PhaseStamp.hostQpc)

def M6Event.read (clock : Clock) (compares : Bool) (record : M6Event) : M6Event :=
  let unreturned := (clock.phaseTick record.returned).isNone
  { record with
    incompleteReason := if record.isWhole then none else some record.why
    -- An earlier phase bounds the next record where the later ones have no tick.
    entry := record.entry.map (PhaseStamp.read clock
      (record.complete || unreturned && (clock.phaseTick record.dispatch).isNone))
    dispatch := record.dispatch.map (PhaseStamp.read clock unreturned)
    returned := record.returned.map (PhaseStamp.read clock true)
    dispatchMode := if record.complete && compares then record.dispatchMode else none
    requestBefore := if record.complete && compares then record.requestBefore else none }

section Events
variable {clock : Clock} {compares : Bool}

@[simp] theorem tick_read (sample : Option HostQpcSample) :
    clock.tick (clock.read sample) = clock.tick sample := by
  unfold Clock.tick Clock.read
  split
  · simp only [Option.filter_filter, Bool.and_self]
  · rfl

theorem phaseTick_read (needed : Bool) (phase : Option PhaseStamp) :
    clock.phaseTick (phase.map (PhaseStamp.read clock needed)) =
      if needed then clock.phaseTick phase else none := by
  have hnone : clock.tick none = none := by
    unfold Clock.tick
    split <;> rfl
  unfold Clock.phaseTick
  cases phase with
  | none =>
    cases needed with
    | false => exact hnone
    | true => rfl
  | some stamp =>
    cases needed with
    | false => exact hnone
    | true => exact tick_read stamp.hostQpc

theorem place_read {event : M4Event} (hcandidate : event.candidate = true) (entryTick : Nat)
    (lower : Option Nat) :
    (event.read clock).place clock entryTick lower = event.place clock entryTick lower := by
  unfold M4Event.place M4Event.read
  simp only [hcandidate, if_true, tick_read]

theorem why_read {record : M6Event} (hwhole : record.isWhole = false) :
    (record.read clock compares).why = record.why := by
  simp only [M6Event.why, M6Event.read, hwhole, Bool.false_eq_true, if_false, Option.getD_some]

theorem latestTick_read (record : M6Event) :
    latestTick clock (record.read clock compares) = latestTick clock record := by
  have hreturned := @phaseTick_read clock true record.returned
  have hdispatch := @phaseTick_read clock (clock.phaseTick record.returned).isNone record.dispatch
  have hentry := @phaseTick_read clock (record.complete ||
    (clock.phaseTick record.returned).isNone && (clock.phaseTick record.dispatch).isNone)
    record.entry
  unfold latestTick
  change [clock.phaseTick (record.read clock compares).returned,
      clock.phaseTick (record.read clock compares).dispatch,
      clock.phaseTick (record.read clock compares).entry].findSome? id =
    [clock.phaseTick record.returned, clock.phaseTick record.dispatch,
      clock.phaseTick record.entry].findSome? id
  unfold M6Event.read
  dsimp only
  rw [hreturned, hdispatch, hentry]
  cases clock.phaseTick record.returned with
  | some tick => rfl
  | none =>
    cases clock.phaseTick record.dispatch with
    | some tick => rfl
    | none => cases record.complete <;> rfl

end Events

/-! ## The transitions -/

section Transitions
variable {clock : Clock}

/-- A step reads the sample of a call or a return alone. -/
theorem step_sample (pairing : Pairing) (event : M5Event) {sample : Option HostQpcSample}
    (h : event.role.isSome = true → clock.tick sample = clock.tick event.hostQpc) :
    pairing.step clock { event with hostQpc := sample } = pairing.step clock event := by
  have hsame : M5Event.role { event with hostQpc := sample } = event.role := rfl
  unfold Pairing.step
  dsimp only
  rw [hsame]
  cases hrole : event.role with
  | none =>
    rw [ite_self]
    rfl
  | some kind =>
    rw [h (by rw [hrole]; rfl)]
    rfl

theorem step_read (pairing : Pairing) (event : M5Event) :
    pairing.step clock (event.read clock) = pairing.step clock event := by
  unfold M5Event.read
  apply step_sample
  intro hrole
  rw [if_pos hrole, tick_read]

theorem pairRoundTrips_read (events : List M5Event) :
    pairRoundTrips clock (events.map (M5Event.read clock)) = pairRoundTrips clock events := by
  unfold pairRoundTrips
  rw [List.foldl_map]
  congr 2
  funext pairing event
  exact step_read pairing event

theorem barrierFrom_read (vp : Option Nat) (events : List M5Event) :
    barrierFrom vp (events.map (M5Event.read clock)) = barrierFrom vp events := by
  induction events generalizing vp with
  | nil => rfl
  | cons event events ih =>
    simp only [List.map_cons, barrierFrom, ih]
    rfl

end Transitions

/-! ## The decisions -/

def Ctx.hits (ctx : Ctx) : List M4Event := (ctx.m4.map Prod.snd).getD []

def Ctx.compares (ctx : Ctx) : Bool := ctx.hits.any M4Event.selected

/-- The hits of one sequence number are of the selected service together. -/
structure Ctx.Selects (ctx : Ctx) : Prop where
  candidates : ctx.m4Candidates = ctx.hits.filter M4Event.candidate
  selected : ∀ event ∈ ctx.hits, event.selected = true → event.candidate = true
  ties : ∀ event ∈ ctx.hits, ∀ other ∈ ctx.hits, event.sequence = other.sequence →
    event.selected = other.selected

def Ctx.SelectedAt (ctx : Ctx) (sequence : Nat) : Prop :=
  ∃ event ∈ ctx.hits, event.selected = true ∧ event.sequence = sequence

def Ctx.read (ctx : Ctx) : Ctx :=
  { ctx with
    m4 := ctx.m4.map fun m4 => (m4.1, m4.2.map (M4Event.read ctx.clock))
    m5Events := ctx.m5Events.map (List.map (M5Event.read ctx.clock))
    m4Candidates := ctx.m4Candidates.map (M4Event.read ctx.clock) }

section Decisions
variable {ctx : Ctx} {record : M6Event} {claimed : List Nat}

theorem clock_read (ctx : Ctx) : ctx.read.clock = ctx.clock := rfl

theorem pool_read (ctx : Ctx) (claimed : List Nat) :
    pool ctx.read claimed = (pool ctx claimed).map (M4Event.read ctx.clock) := List.filter_map

theorem m4M6Relation_read (ctx : Ctx) : ctx.read.m4M6Relation = ctx.m4M6Relation := by
  unfold Ctx.m4M6Relation Ctx.read
  cases ctx.m4 <;> rfl

theorem ranked_read (ctx : Ctx) (summary : LayerSummary) :
    ranked ctx.read summary = ranked ctx summary := by
  unfold ranked
  rw [m4M6Relation_read]
  rfl

theorem candidate_of_pool (hselects : ctx.Selects) {event : M4Event}
    (hevent : event ∈ pool ctx claimed) : event.candidate = true := by
  have hcandidate := (List.mem_filter.mp hevent).1
  rw [hselects.candidates] at hcandidate
  exact (List.mem_filter.mp hcandidate).2

theorem filter_place_read (hselects : ctx.Selects) (entryTick : Nat) (lower : Option Nat)
    (place : Placed) :
    ((pool ctx claimed).map (M4Event.read ctx.clock)).filter
        (fun event => event.place ctx.clock entryTick lower == place) =
      ((pool ctx claimed).filter fun event =>
        event.place ctx.clock entryTick lower == place).map (M4Event.read ctx.clock) := by
  rw [List.filter_map]
  apply congrArg
  apply List.filter_congr
  intro event hevent
  exact congrArg (· == place) (place_read (candidate_of_pool hselects hevent) entryTick lower)

theorem map_sequence_read (clock : Clock) (events : List M4Event) :
    (events.map (M4Event.read clock)).map M4Event.sequence = events.map M4Event.sequence := by
  rw [List.map_map]
  rfl

theorem entryTick_read (clock : Clock) (compares : Bool) (hcomplete : record.complete = true) :
    clock.phaseTick (record.read clock compares).entry = clock.phaseTick record.entry := by
  unfold M6Event.read
  dsimp only
  rw [phaseTick_read, hcomplete, Bool.true_or, if_pos rfl]

theorem returnTick_read (clock : Clock) (compares : Bool) (record : M6Event) :
    clock.phaseTick (record.read clock compares).returned = clock.phaseTick record.returned := by
  unfold M6Event.read
  dsimp only
  rw [phaseTick_read, if_pos rfl]

theorem decideByPoint_read (hselects : ctx.Selects) (compares : Bool)
    (hcomplete : record.complete = true) (lower : Option Nat) :
    decideByPoint ctx.read (record.read ctx.clock compares) lower claimed =
      decideByPoint ctx record lower claimed := by
  have hentry := entryTick_read ctx.clock compares hcomplete
  unfold Clock.phaseTick at hentry
  have hselected (events : List M4Event) :
      ((events.map (M4Event.read ctx.clock)).any fun event => !event.selected) =
        events.any fun event => !event.selected := List.any_map
  unfold decideByPoint
  simp only [clock_read, hentry, pool_read, filter_place_read hselects]
  cases ctx.clock.tick (record.entry.bind PhaseStamp.hostQpc) with
  | none => simp only [map_sequence_read]
  | some entryTick =>
    dsimp only
    simp only [← List.map_append, map_sequence_read, hselected, List.length_map]
    generalize (pool ctx claimed).filter (fun event =>
      event.place ctx.clock entryTick lower == .strict) = strict
    generalize (pool ctx claimed).filter (fun event =>
      event.place ctx.clock entryTick lower == .undecided) = undecided
    -- The one candidate between the bounds is matched by its number.
    cases strict with
    | nil => cases undecided <;> rfl
    | cons event rest =>
      cases rest with
      | nil => cases undecided <;> rfl
      | cons => rfl

theorem decideByRank_read (ctx : Ctx) (read record : M6Event)
    (hsequence : read.sequence = record.sequence) (entryRank : Nat) (claimed : List Nat) :
    decideByRank ctx.read read entryRank claimed =
      decideByRank ctx record entryRank claimed := by
  have hcandidates : ctx.read.m4Candidates = ctx.m4Candidates.map (M4Event.read ctx.clock) := rfl
  have hentries : ctx.read.m6Entries = ctx.m6Entries := rfl
  have hrank (rank : Nat) : (ctx.m4Candidates[rank]?.map (M4Event.read ctx.clock)).map
      M4Event.sequence = ctx.m4Candidates[rank]?.map M4Event.sequence := by
    rw [Option.map_map]
    rfl
  unfold decideByRank
  simp only [m4M6Relation_read, hcandidates, hentries, List.length_map, List.getElem?_map,
    pool_read, map_sequence_read, hrank, hsequence]
  cases ctx.m4Candidates[entryRank]? <;> rfl

theorem decideM4_read (hselects : ctx.Selects) (compares : Bool)
    (hcomplete : record.complete = true) (entryRank : Nat) (lower : Option Nat)
    (claimed : List Nat) :
    decideM4 ctx.read (record.read ctx.clock compares) entryRank lower claimed =
      decideM4 ctx record entryRank lower claimed := by
  have hselected (events : List M4Event) :
      ((events.map (M4Event.read ctx.clock)).any fun event => !event.selected) =
        events.any fun event => !event.selected := List.any_map
  unfold decideM4
  simp only [clock_read, pool_read, m4M6Relation_read, ranked_read, map_sequence_read, hselected,
    List.isEmpty_map, decideByPoint_read hselects compares hcomplete,
    decideByRank_read ctx (record.read ctx.clock compares) record rfl]
  unfold Ctx.read
  cases ctx.m4 <;> rfl

theorem decideM5_read (ctx : Ctx) (tick : Option Nat) (stage : Stage) :
    decideM5 ctx.read tick stage = decideM5 ctx tick stage := by
  have hrelation : ctx.read.m5M6Relation = ctx.m5M6Relation := rfl
  have hbarrier (events : List M5Event) :
      m5HasPairingBarrier (events.map (M5Event.read ctx.clock)) = m5HasPairingBarrier events :=
    barrierFrom_read none events
  have hkind (kind : TransitionKind) (events : List M5Event) :
      ((events.map (M5Event.read ctx.clock)).filter fun event =>
          event.kind == kind || event.kind == .other).map M5Event.sequence =
        (events.filter fun event => event.kind == kind || event.kind == .other).map
          M5Event.sequence := by
    rw [List.filter_map, List.map_map]
    rfl
  unfold decideM5
  simp only [clock_read, hrelation]
  unfold Ctx.read
  dsimp only
  cases ctx.m5Events with
  | none => rfl
  | some events => simp only [Option.map_some, hbarrier, hkind]

/-- What is matched is of the selected service, where what was claimed is. -/
theorem decideM4_selected (hselects : ctx.Selects)
    (hclaimed : ∀ sequence ∈ claimed, ctx.SelectedAt sequence) {entryRank : Nat}
    {lower : Option Nat} {m4 : Decision × List Mark} {matched : EventId}
    (h : decideM4 ctx record entryRank lower claimed = .ok m4)
    (hmatched : m4.1.matched? = some matched) : ctx.SelectedAt matched.sequence := by
  have hhit {event : M4Event} (hevent : event ∈ ctx.m4Candidates) : event ∈ ctx.hits := by
    rw [hselects.candidates] at hevent
    exact (List.mem_filter.mp hevent).1
  by_cases hranks : ∃ summary events, RanksExactly ctx claimed summary events
  · obtain ⟨summary, events, hranks⟩ := hranks
    rw [decideM4_of_ranks hranks, decideByRank_of_same hranks.same] at h
    cases hcandidate : ctx.m4Candidates[entryRank]? with
    | none =>
      rw [hcandidate] at h
      cases h
    | some event =>
      rw [hcandidate] at h
      cases h
      cases hmatched
      have hevent := List.mem_of_getElem? hcandidate
      refine ⟨event, hhit hevent, ?_, rfl⟩
      by_cases hfree : event.sequence ∈ claimed
      · obtain ⟨other, hother, hselected, hsequence⟩ := hclaimed _ hfree
        rw [← hselects.ties other hother event (hhit hevent) hsequence]
        exact hselected
      · apply hranks.selected event
        apply List.mem_filter.mpr ⟨hevent, ?_⟩
        rw [Bool.not_eq_true', List.contains_eq_mem, decide_eq_false_iff_not]
        exact hfree
  · push Not at hranks
    obtain ⟨decided, hdecided, hpool⟩ := @decideM4_of_not_ranks ctx record entryRank lower _ hranks
    cases h.symm.trans hdecided
    obtain ⟨event, hevent, hselected, rfl⟩ := hpool matched hmatched
    exact ⟨event, hhit (List.mem_filter.mp hevent).1, hselected, rfl⟩

/-- The event of a match, which is one of the selected service. -/
theorem eventOf_selected (hselects : ctx.Selects) {summary : LayerSummary}
    {events : List M4Event} (hm4 : ctx.m4 = some (summary, events)) {matched : EventId}
    (h : ctx.SelectedAt matched.sequence) :
    ∃ event ∈ events, event.selected = true ∧ eventOf events matched = some event := by
  have hhits : ctx.hits = events := by
    unfold Ctx.hits
    rw [hm4]
    rfl
  obtain ⟨other, hother, hselected, hsequence⟩ := h
  have hties := hselects.ties
  rw [hhits] at hother hties
  unfold eventOf
  cases hfound : events.find? fun event => event.sequence == matched.sequence with
  | none =>
    have hmissed := List.find?_eq_none.mp hfound other hother
    exact absurd (beq_iff_eq.mpr hsequence) hmissed
  | some event =>
    have hevent := List.mem_of_find?_eq_some hfound
    have hsame := @List.find?_some _ (fun event : M4Event => event.sequence == matched.sequence)
      _ _ hfound
    refine ⟨event, hevent, ?_, rfl⟩
    rw [hties event hevent other hother ((beq_iff_eq.mp hsame).trans hsequence.symm)]
    exact hselected

theorem eventOf_read (clock : Clock) (events : List M4Event) (matched : EventId) :
    eventOf (events.map (M4Event.read clock)) matched =
      (eventOf events matched).map (M4Event.read clock) := List.find?_map

theorem compares_of_selectedAt {sequence : Nat} (h : ctx.SelectedAt sequence) :
    ctx.compares = true := by
  obtain ⟨event, hevent, hselected, -⟩ := h
  exact List.any_eq_true.mpr ⟨event, hevent, hselected⟩

theorem crossChecks_read (clock : Clock) {event : M4Event} (hselected : event.selected = true)
    (hcomplete : record.complete = true) :
    crossChecks (event.read clock) (record.read clock true) = crossChecks event record := by
  unfold crossChecks M4Event.read M6Event.read
  simp only [hselected, hcomplete, Bool.and_self, if_true]

section Matched
variable {m4Entry : Decision} (hselects : ctx.Selects)
  (hentry : ∀ matched, m4Entry.matched? = some matched → ctx.SelectedAt matched.sequence)
include hselects hentry

theorem countBefore_read (read : M6Event) (hsequence : read.sequence = record.sequence)
    (callIndex : Option Nat) :
    countBefore ctx.read read m4Entry callIndex = countBefore ctx record m4Entry callIndex := by
  cases callIndex with
  | none => rfl
  | some callIndex =>
    unfold countBefore
    rw [hsequence]
    cases hmatched : m4Entry.matched? with
    | none => rfl
    | some matched =>
      cases hm4 : ctx.m4 with
      | none =>
        unfold Ctx.read
        rw [hm4]
        rfl
      | some m4 =>
        obtain ⟨event, hevent, hselected, hfound⟩ :=
          eventOf_selected hselects hm4 (hentry matched hmatched)
        have hhits : event ∈ ctx.hits := by
          unfold Ctx.hits
          rw [hm4]
          exact hevent
        have htick : ctx.clock.tick (event.read ctx.clock).hostQpc =
            ctx.clock.tick event.hostQpc := by
          unfold M4Event.read
          dsimp only
          rw [if_pos (hselects.selected event hhits hselected), tick_read]
        have hread : ctx.read.m4 = some (m4.1, m4.2.map (M4Event.read ctx.clock)) := by
          unfold Ctx.read
          rw [hm4]
          rfl
        have htrips : ctx.read.m5 = ctx.m5 := rfl
        rw [hread, htrips]
        cases ctx.m5 with
        | none => rfl
        | some m5 =>
          dsimp only
          rw [eventOf_read, hfound, clock_read, Option.map_some, Option.bind_some,
            Option.bind_some, htick]

theorem checkMatched_read (hcomplete : record.complete = true) :
    checkMatched ctx.read (record.read ctx.clock ctx.compares) m4Entry =
      checkMatched ctx record m4Entry := by
  unfold checkMatched
  cases hmatched : m4Entry.matched? with
  | none => rfl
  | some matched =>
    cases hm4 : ctx.m4 with
    | none =>
      unfold Ctx.read
      rw [hm4]
      rfl
    | some m4 =>
      have hselected := hentry matched hmatched
      obtain ⟨event, -, hevent, hfound⟩ := eventOf_selected hselects hm4 hselected
      have hread : ctx.read.m4 = some (m4.1, m4.2.map (M4Event.read ctx.clock)) := by
        unfold Ctx.read
        rw [hm4]
        rfl
      rw [hread]
      dsimp only
      rw [eventOf_read, hfound, compares_of_selectedAt hselected]
      exact crossChecks_read ctx.clock hevent hcomplete

end Matched

theorem decideComplete_read (hselects : ctx.Selects)
    (hclaimed : ∀ sequence ∈ claimed, ctx.SelectedAt sequence) (hcomplete : record.complete = true)
    (entryRank : Nat) (lower : Option Nat) :
    decideComplete ctx.read (record.read ctx.clock ctx.compares) entryRank lower claimed =
      decideComplete ctx record entryRank lower claimed := by
  have hentry := entryTick_read ctx.clock ctx.compares hcomplete
  have hreturned := returnTick_read ctx.clock ctx.compares record
  unfold Clock.phaseTick at hentry hreturned
  unfold decideComplete
  rw [decideM4_read hselects ctx.compares hcomplete, clock_read, hentry, hreturned]
  cases hm4 : decideM4 ctx record entryRank lower claimed with
  | error failure => rfl
  | ok m4 =>
    have hmatched (matched : EventId) (h : m4.1.matched? = some matched) :=
      decideM4_selected hselects hclaimed hm4 h
    have hbefore := @countBefore_read ctx record m4.1 hselects hmatched
      (record.read ctx.clock ctx.compares) rfl
    have hok (next : Decision × List Mark → Except Failure Decided) :
        (Except.ok m4 >>= next) = next m4 := rfl
    simp only [hok, decideM5_read, checkMatched_read hselects hmatched hcomplete, hbefore]
    rfl

theorem decideIncomplete_read (hincomplete : record.complete = false) :
    decideIncomplete ctx.read (record.read ctx.clock ctx.compares) =
      decideIncomplete ctx record := by
  have hwhole : record.isWhole = false := by
    unfold M6Event.isWhole
    rw [hincomplete]
    rfl
  have hm4 : ctx.read.m4.isSome = ctx.m4.isSome := Option.isSome_map
  have hm5 : ctx.read.m5.isSome = ctx.m5.isSome := rfl
  unfold decideIncomplete
  rw [hm4, hm5, why_read hwhole]

theorem decideRecord_read (hselects : ctx.Selects) {pass : Pass}
    (hclaimed : ∀ sequence ∈ pass.claimed, ctx.SelectedAt sequence) (record : M6Event) :
    decideRecord ctx.read pass (record.read ctx.clock ctx.compares) =
      decideRecord ctx pass record := by
  unfold decideRecord
  change (if record.complete = true then _ else _) = _
  cases hcomplete : record.complete with
  | true => exact decideComplete_read hselects hclaimed hcomplete pass.entryRank pass.lower
  | false => exact congrArg Except.ok (decideIncomplete_read hcomplete)

theorem m6Stage_read (clock : Clock) (compares : Bool) {phase read : Option PhaseStamp}
    (hread : read.isSome = phase.isSome)
    (hwhole : phase = none → record.isWhole = false) (stage : Stage) :
    m6Stage (record.read clock compares) read stage = m6Stage record phase stage := by
  cases phase with
  | some stamp =>
    cases read with
    | some other => rfl
    | none => cases hread
  | none =>
    cases read with
    | some other => cases hread
    | none =>
      have hlast : (record.read clock compares).lastStage = record.lastStage := by
        unfold M6Event.lastStage M6Event.read
        simp only [Option.map_map]
        rfl
      unfold m6Stage
      dsimp only
      rw [why_read (hwhole rfl), hlast]

theorem chainOf_read (clock : Clock) (compares : Bool) (captureId : String) (record : M6Event)
    (decided : Decided) :
    chainOf captureId (record.read clock compares) decided = chainOf captureId record decided := by
  have hentry := @m6Stage_read record clock compares record.entry
    (record.read clock compares).entry Option.isSome_map
    (fun h => by simp [M6Event.isWhole, h]) .m6Entry
  have hdispatch := @m6Stage_read record clock compares record.dispatch
    (record.read clock compares).dispatch Option.isSome_map
    (fun h => by simp [M6Event.isWhole, h]) .m6Dispatch
  have hreturned := @m6Stage_read record clock compares record.returned
    (record.read clock compares).returned Option.isSome_map
    (fun h => by simp [M6Event.isWhole, h]) .m6Return
  unfold chainOf
  rw [hentry, hdispatch, hreturned]
  rfl

theorem after_read (captureId : String) (pass : Pass) (record : M6Event) (decided : Decided) :
    pass.after ctx.read captureId (record.read ctx.clock ctx.compares) decided =
      pass.after ctx captureId record decided := by
  have hentry : (record.read ctx.clock ctx.compares).entry.isSome = record.entry.isSome :=
    Option.isSome_map
  unfold Pass.after
  rw [chainOf_read, hentry, clock_read, latestTick_read]
  rfl

theorem decideRecord_selected (hselects : ctx.Selects) {pass : Pass}
    (hclaimed : ∀ sequence ∈ pass.claimed, ctx.SelectedAt sequence) {decided : Decided}
    (h : decideRecord ctx pass record = .ok decided) {matched : EventId}
    (hmatched : decided.m4Entry.matched? = some matched) : ctx.SelectedAt matched.sequence := by
  unfold decideRecord at h
  split at h
  · unfold decideComplete at h
    obtain ⟨m4, hm4, h⟩ := bind_eq_ok.mp h
    simp only [bind_eq_ok] at h
    obtain ⟨_, -, _, -, _, -, _, -, h⟩ := h
    cases h
    exact decideM4_selected hselects hclaimed hm4 hmatched
  · cases h
    rw [decideIncomplete_matched] at hmatched
    cases hmatched

theorem after_selected (hselects : ctx.Selects) {pass : Pass}
    (hclaimed : ∀ sequence ∈ pass.claimed, ctx.SelectedAt sequence) (captureId : String)
    {decided : Decided} (h : decideRecord ctx pass record = .ok decided) :
    ∀ sequence ∈ (pass.after ctx captureId record decided).claimed, ctx.SelectedAt sequence := by
  intro sequence hsequence
  unfold Pass.after at hsequence
  rcases List.mem_append.mp hsequence with hbefore | hnew
  · exact hclaimed sequence hbefore
  · split at hnew
    · obtain ⟨matched, hmatched, rfl⟩ := List.mem_map.mp hnew
      exact decideRecord_selected hselects hclaimed h (Option.mem_toList.mp hmatched)
    · cases hnew

end Decisions

/-! ## The join -/

def Evidence.read (evidence : Evidence) : Evidence :=
  { evidence with
    ctx := evidence.ctx.read
    records := evidence.records.map (M6Event.read evidence.ctx.clock evidence.ctx.compares) }

section Join
variable {evidence : Evidence}

theorem passOver_read (hselects : evidence.ctx.Selects) (captureId : String)
    (records : List M6Event) {pass : Pass}
    (hclaimed : ∀ sequence ∈ pass.claimed, evidence.ctx.SelectedAt sequence) :
    evidence.read.passOver captureId
        (records.map (M6Event.read evidence.ctx.clock evidence.ctx.compares)) pass =
      evidence.passOver captureId records pass := by
  induction records generalizing pass with
  | nil => rfl
  | cons record records ih =>
    have hctx : evidence.read.ctx = evidence.ctx.read := rfl
    rw [List.map_cons, pass_cons, pass_cons, hctx, decideRecord_read hselects hclaimed]
    cases hdecided : decideRecord evidence.ctx pass record with
    | error failure =>
      -- The two continuations are not compared.
      change Except.error failure = Except.error failure
      rfl
    | ok decided =>
      change evidence.read.passOver captureId _ (pass.after evidence.ctx.read captureId _ decided) =
        evidence.passOver captureId records (pass.after evidence.ctx captureId record decided)
      rw [after_read]
      exact ih (after_selected hselects hclaimed captureId hdecided)

theorem conclude_read (input : JoinInput) (evidence : Evidence) (pass : Pass) :
    conclude input evidence.read pass = conclude input evidence pass := by
  have hunclaimed : evidence.read.unclaimed pass.claimed = evidence.unclaimed pass.claimed := by
    unfold Evidence.unclaimed Evidence.read
    dsimp only
    rw [pool_read, List.map_map]
    rfl
  unfold conclude
  rw [hunclaimed]
  rfl

theorem join_read {input : JoinInput} (h : prepare input = .ok evidence)
    (hselects : evidence.ctx.Selects) :
    join input = evidence.read.passOver input.identity.captureId evidence.read.records
      evidence.read.start >>= fun pass => .ok (conclude input evidence.read pass) := by
  rw [join_eq h]
  simp only [conclude_read]
  congr 1
  exact (passOver_read hselects _ _ (by simp [Evidence.start])).symm

end Join

end WindbgMcp.SkJoin
