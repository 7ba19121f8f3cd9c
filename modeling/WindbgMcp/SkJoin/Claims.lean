import WindbgMcp.SkJoin.Join

/-! What a join never does: panic, match a VTL0 entry twice, or lose a record, a candidate, a call
or a return. The rank of a record may name no candidate or one that is claimed, and a text may
have no character boundary where it is cut; short of these the join keeps to it. -/
namespace WindbgMcp.SkJoin
open WindbgMcp.Library WindbgMcp.Correlate

theorem m4EventId_injective : Function.Injective m4EventId :=
  fun _ _ h => congrArg EventId.sequence h

section M4
variable {ctx : Ctx} {record : M6Event} {entryRank : Nat} {lower : Option Nat} {claimed : List Nat}

/-- The VTL0 entry is the candidate of the record's rank: one complete run contains the other and
both recorded the same number. -/
structure RanksExactly (ctx : Ctx) (claimed : List Nat) (summary : LayerSummary)
    (events : List M4Event) : Prop where
  traced : ctx.m4 = some (summary, events)
  waiting : (pool ctx claimed).isEmpty = false
  interval : ctx.clock.point = false
  selected : ∀ event ∈ pool ctx claimed, event.selected = true
  complete : ranked ctx summary = true
  same : ctx.m4Candidates.length = ctx.m6Entries

def Decision.OfPool (decision : Decision) (ctx : Ctx) (claimed : List Nat) : Prop :=
  ∀ matched, decision.matched? = some matched →
    ∃ event ∈ pool ctx claimed, event.selected = true ∧ matched = m4EventId event.sequence

theorem ofPool_of_none {decision : Decision} (h : decision.matched? = none) :
    decision.OfPool ctx claimed := by
  intro matched hmatched
  rw [h] at hmatched
  cases hmatched

theorem decideByPoint_ofPool : (decideByPoint ctx record lower claimed).OfPool ctx claimed := by
  unfold decideByPoint
  dsimp only
  split
  · exact ofPool_of_none rfl
  · next entryTick _ =>
    split
    · next event hstrict hundecided =>
      split
      · next hselected =>
        intro matched hmatched
        refine ⟨event, ?_, hselected, (Option.some.inj hmatched).symm⟩
        have hmem : event ∈ (pool ctx claimed).filter fun event =>
            event.place ctx.clock entryTick lower == .strict := by
          rw [hstrict]
          exact List.mem_singleton_self _
        exact (List.mem_filter.mp hmem).1
      · exact ofPool_of_none rfl
    · exact ofPool_of_none rfl
    · exact ofPool_of_none rfl

theorem relation_of_ranked {summary : LayerSummary} (h : ranked ctx summary = true) :
    ctx.m4M6Relation = .contains ∨ ctx.m4M6Relation = .containedBy := by
  unfold ranked at h
  simp only [Bool.and_eq_true, Bool.or_eq_true, beq_iff_eq] at h
  exact h.1.1

/-- By rank where the two runs have the same length, and only there, the candidate of the rank is
matched without a look at what is claimed. -/
theorem decideByRank_of_same (h : ctx.m4Candidates.length = ctx.m6Entries) :
    decideByRank ctx record entryRank claimed =
      ctx.m4Candidates[entryRank]?.elim (.error .panicked) fun event =>
        .ok
          (.matched (m4EventId event.sequence)
            ("rank: one complete run contains the other and both recorded the same number of " ++
              "selected calls"), []) := by
  unfold decideByRank
  dsimp only
  rw [h, ite_self, if_neg (Nat.lt_irrefl _), Nat.sub_self, if_pos rfl]
  cases ctx.m4Candidates[entryRank]? with
  | none => rfl
  | some event => rfl

theorem decideByRank_of_not_same (h : ctx.m4Candidates.length ≠ ctx.m6Entries) :
    ∃ decided, decideByRank ctx record entryRank claimed = .ok decided ∧
      decided.1.OfPool ctx claimed := by
  unfold decideByRank
  dsimp only
  generalize hcontainer : (if (ctx.m4M6Relation == .contains) = true then
    ctx.m4Candidates.length else ctx.m6Entries) = container
  generalize hcontained : (if (ctx.m4M6Relation == .contains) = true then
    ctx.m6Entries else ctx.m4Candidates.length) = contained
  by_cases hcounts : container < contained
  · rw [if_pos hcounts]
    exact ⟨(_, _), rfl, ofPool_of_none rfl⟩
  · have hslack : container - contained ≠ 0 := by
      by_cases hrelation : (ctx.m4M6Relation == .contains) = true
      · rw [if_pos hrelation] at hcontainer hcontained
        omega
      · rw [if_neg hrelation] at hcontainer hcontained
        omega
    rw [if_neg hcounts, if_neg hslack]
    exact ⟨(_, _), rfl, ofPool_of_none rfl⟩

theorem decideM4_of_ranks {summary : LayerSummary} {events : List M4Event}
    (h : RanksExactly ctx claimed summary events) :
    decideM4 ctx record entryRank lower claimed = decideByRank ctx record entryRank claimed := by
  have hselected : ((pool ctx claimed).any fun event => !event.selected) = false := by
    rw [List.any_eq_false]
    intro event hevent
    rw [h.selected event hevent]
    exact Bool.false_ne_true
  have hapart : ctx.m4M6Relation ≠ .disjoint := by
    rcases relation_of_ranked h.complete with hrelation | hrelation
    · rw [hrelation]
      exact nofun
    · rw [hrelation]
      exact nofun
  unfold decideM4
  simp only [h.traced, h.waiting, h.interval, hselected, hapart, h.complete, Bool.false_eq_true,
    if_false, if_true]

theorem decideM4_of_not_ranks (h : ∀ summary events, ¬ RanksExactly ctx claimed summary events) :
    ∃ decided, decideM4 ctx record entryRank lower claimed = .ok decided ∧
      decided.1.OfPool ctx claimed := by
  unfold decideM4
  dsimp only
  split
  · exact ⟨_, rfl, ofPool_of_none rfl⟩
  next summary events htraced =>
  split
  · exact ⟨_, rfl, ofPool_of_none rfl⟩
  next hwaiting =>
  split
  · exact ⟨_, rfl, decideByPoint_ofPool⟩
  next hinterval =>
  split
  · exact ⟨_, rfl, ofPool_of_none rfl⟩
  split
  · exact ⟨_, rfl, ofPool_of_none rfl⟩
  next hselected =>
  split
  · next hranked =>
    apply decideByRank_of_not_same
    intro hsame
    apply h summary events
    refine ⟨htraced, Bool.eq_false_iff.mpr hwaiting, Bool.eq_false_iff.mpr hinterval, ?_, hranked,
      hsame⟩
    intro event hevent
    by_contra hunread
    apply hselected
    rw [List.any_eq_true]
    exact ⟨event, hevent, Bool.not_eq_true' _ ▸ Bool.eq_false_iff.mpr hunread⟩
  · split
    · exact ⟨_, rfl, ofPool_of_none rfl⟩
    · exact ⟨_, rfl, ofPool_of_none rfl⟩
    · exact ⟨_, rfl, ofPool_of_none rfl⟩
    · exact ⟨_, rfl, ofPool_of_none rfl⟩

end M4

section Texts
variable {ctx : Ctx} {event : M4Event} {record : M6Event}

/-- Where both sides retain 64 bytes of the block, a character starts at the two places each is
cut at. -/
def Cut (event : M4Event) (record : M6Event) : Prop :=
  ∀ block request, event.argumentBlock = some block → record.requestBefore = some request →
    128 ≤ Utf8.byteLen block.toList → 128 ≤ Utf8.byteLen request.toList →
      (Utf8.slice block.toList 16 128).isSome = true ∧
        (Utf8.slice request.toList 16 128).isSome = true

theorem blockOf_of_isSome {text : String} (h : (Utf8.slice text.toList 16 128).isSome = true) :
    ∃ block, blockOf text = .ok block := by
  obtain ⟨block, hblock⟩ := Option.isSome_iff_exists.mp h
  unfold blockOf
  rw [hblock]
  exact ⟨_, rfl⟩

theorem blockOf_cases (text : String) :
    (∃ block, blockOf text = .ok block ∧ (Utf8.slice text.toList 16 128).isSome = true) ∨
      blockOf text = .error .panicked := by
  unfold blockOf
  cases Utf8.slice text.toList 16 128 with
  | none => exact .inr rfl
  | some block => exact .inl ⟨_, rfl, rfl⟩

theorem crossChecks_of_cut (h : Cut event record) :
    ∃ checks, crossChecks event record = .ok checks := by
  unfold crossChecks
  cases hblock : event.argumentBlock with
  | none => exact ⟨_, rfl⟩
  | some block =>
    cases hrequest : record.requestBefore with
    | none => exact ⟨_, rfl⟩
    | some request =>
      dsimp only
      split
      · next hlong =>
        have hcut := h block request hblock hrequest hlong.1 hlong.2
        obtain ⟨left, hleft⟩ := blockOf_of_isSome hcut.1
        obtain ⟨right, hright⟩ := blockOf_of_isSome hcut.2
        rw [hleft, hright]
        exact ⟨_, rfl⟩
      · exact ⟨_, rfl⟩

theorem crossChecks_of_not_cut (h : ¬ Cut event record) :
    crossChecks event record = .error .panicked := by
  unfold Cut at h
  push Not at h
  obtain ⟨block, request, hblock, hrequest, hleft, hright, hcut⟩ := h
  unfold crossChecks
  rw [hblock, hrequest]
  simp only [hleft, hright, and_self, if_true]
  rcases blockOf_cases block with ⟨left, hleft, hsome⟩ | hleft
  · rcases blockOf_cases request with ⟨right, hright, hother⟩ | hright
    · exact absurd hother (hcut hsome)
    · rw [hleft, hright]
      rfl
  · rw [hleft]
    rfl

def MatchedCut (ctx : Ctx) (record : M6Event) (decision : Decision) : Prop :=
  ∀ matched summary events event, decision.matched? = some matched →
    ctx.m4 = some (summary, events) → eventOf events matched = some event → Cut event record

theorem checkMatched_of_cut {decision : Decision} (h : MatchedCut ctx record decision) :
    ∃ checks, checkMatched ctx record decision = .ok checks := by
  unfold checkMatched
  split
  · next matched summary events hmatched htraced =>
    split
    · next event hevent =>
      exact crossChecks_of_cut (h matched summary events event hmatched htraced hevent)
    · exact ⟨_, rfl⟩
  · exact ⟨_, rfl⟩

theorem checkMatched_of_not_cut {decision : Decision} (h : ¬ MatchedCut ctx record decision) :
    checkMatched ctx record decision = .error .panicked := by
  unfold MatchedCut at h
  push Not at h
  obtain ⟨matched, summary, events, event, hmatched, htraced, hevent, hcut⟩ := h
  unfold checkMatched
  rw [hmatched, htraced]
  simp only [hevent]
  exact crossChecks_of_not_cut hcut

end Texts

section M5
variable {ctx : Ctx} {record : M6Event}

def Ctx.Paired (ctx : Ctx) : Prop := ctx.m5.isSome = ctx.m5Events.isSome

def Ctx.HasTrip (ctx : Ctx) (index : Option Nat) : Prop :=
  ∀ position ∈ index, ∀ summary trips, ctx.m5 = some (summary, trips) → position < trips.length

theorem hasTrip_none : ctx.HasTrip none := nofun

theorem enclosing_one {trips : List RoundTrip} {tick : Option Nat} {bound : OpenBound}
    {index : Nat} (h : enclosing trips tick bound = .one index) : index < trips.length := by
  unfold enclosing at h
  split at h
  · split at h <;> cases h
  · next tick =>
    dsimp only at h
    split at h
    · next found hstrict _ =>
      obtain rfl : found = index := Placement.one.inj h
      have hmem : found ∈ (trips.zipIdx.filter fun trip =>
          trip.1.place tick bound == .strict).map Prod.snd := by
        rw [hstrict]
        exact List.mem_singleton_self _
      obtain ⟨trip, htrip, rfl⟩ := List.mem_map.mp hmem
      have hbound := List.snd_lt_of_mem_zipIdx (List.mem_filter.mp htrip).1
      omega
    · cases h
    · cases h

theorem decideM5_answers (h : ctx.Paired) (tick : Option Nat) {stage : Stage}
    (hstage : stage = .m5VtlCall ∨ stage = .m5VtlReturn) :
    ∃ decided, decideM5 ctx tick stage = .ok decided ∧ ctx.HasTrip decided.2 := by
  unfold decideM5
  split
  · exact ⟨_, rfl, hasTrip_none⟩
  next summary trips htraced =>
  split
  · next hevents =>
    unfold Ctx.Paired at h
    rw [htraced, hevents] at h
    cases h
  next events hevents =>
  split
  · rcases hstage with rfl | rfl
    · exact ⟨_, rfl, hasTrip_none⟩
    · exact ⟨_, rfl, hasTrip_none⟩
  split
  · exact ⟨_, rfl, hasTrip_none⟩
  split
  · split
    · exact ⟨_, rfl, hasTrip_none⟩
    · exact ⟨_, rfl, hasTrip_none⟩
  dsimp only
  split
  · next index hindex =>
    have hbound := enclosing_one hindex
    have hat : ctx.HasTrip (some index) := by
      intro position hposition other others hother
      obtain rfl := Option.some.inj hposition
      obtain ⟨-, rfl⟩ := Prod.mk.inj (Option.some.inj (htraced.symm.trans hother))
      exact hbound
    rw [List.getElem?_eq_getElem hbound]
    dsimp only
    split
    · exact ⟨_, rfl, hat⟩
    · exact ⟨_, rfl, hat⟩
  · exact ⟨_, rfl, hasTrip_none⟩
  · split
    · exact ⟨_, rfl, hasTrip_none⟩
    · exact ⟨_, rfl, hasTrip_none⟩

theorem countBefore_answers {index : Option Nat} (h : ctx.HasTrip index) (decision : Decision) :
    ∃ counted, countBefore ctx record decision index = .ok counted := by
  unfold countBefore
  split
  · next position matched m4 events m5 trips hmatched htraced hpaired =>
    split
    · exact ⟨_, rfl⟩
    · have hbound := h position rfl m5 trips hpaired
      rw [List.getElem?_eq_getElem hbound]
      dsimp only
      split
      · exact ⟨_, rfl⟩
      · exact ⟨_, rfl⟩
  · exact ⟨_, rfl⟩

/-- A complete record fails only where its VTL0 entry or its cross-checks do. -/
theorem decideComplete_of_ok (h : ctx.Paired) {entryRank : Nat} {lower : Option Nat}
    {claimed : List Nat} {m4 : Decision × List Mark} {checks : List CrossCheck}
    (hm4 : decideM4 ctx record entryRank lower claimed = .ok m4)
    (hchecks : checkMatched ctx record m4.1 = .ok checks) :
    ∃ decided, decideComplete ctx record entryRank lower claimed = .ok decided ∧
      decided.m4Entry = m4.1 := by
  obtain ⟨call, hcall, hindex⟩ := decideM5_answers h
    (ctx.clock.tick (record.entry.bind PhaseStamp.hostQpc)) (.inl rfl)
  obtain ⟨returned, hreturned, -⟩ := decideM5_answers h
    (ctx.clock.tick (record.returned.bind PhaseStamp.hostQpc)) (.inr rfl)
  obtain ⟨counted, hcounted⟩ := @countBefore_answers ctx record _ hindex m4.1
  unfold decideComplete
  rw [hm4, hcall, hreturned]
  dsimp only [bind, Except.bind]
  rw [hcounted, hchecks]
  exact ⟨_, rfl, rfl⟩

theorem decideComplete_of_m4 {entryRank : Nat} {lower : Option Nat} {claimed : List Nat}
    {failure : Failure} (hm4 : decideM4 ctx record entryRank lower claimed = .error failure) :
    decideComplete ctx record entryRank lower claimed = .error failure := by
  unfold decideComplete
  rw [hm4]
  rfl

theorem decideComplete_of_checks (h : ctx.Paired) {entryRank : Nat} {lower : Option Nat}
    {claimed : List Nat} {m4 : Decision × List Mark} {failure : Failure}
    (hm4 : decideM4 ctx record entryRank lower claimed = .ok m4)
    (hchecks : checkMatched ctx record m4.1 = .error failure) :
    decideComplete ctx record entryRank lower claimed = .error failure := by
  obtain ⟨call, hcall, hindex⟩ := decideM5_answers h
    (ctx.clock.tick (record.entry.bind PhaseStamp.hostQpc)) (.inl rfl)
  obtain ⟨returned, hreturned, -⟩ := decideM5_answers h
    (ctx.clock.tick (record.returned.bind PhaseStamp.hostQpc)) (.inr rfl)
  obtain ⟨counted, hcounted⟩ := @countBefore_answers ctx record _ hindex m4.1
  unfold decideComplete
  rw [hm4, hcall, hreturned]
  dsimp only [bind, Except.bind]
  rw [hcounted, hchecks]

end M5

/-! ## One record -/

def Chain.claim (chain : Chain) : Option EventId := chain.stages.m4Entry.matched?

/-- Where a complete record is decided by its rank its candidate is there and unclaimed, and the
texts of the event it matches can be cut. -/
structure Pass.Admits (ctx : Ctx) (pass : Pass) (record : M6Event) : Prop where
  rank : ∀ summary events, RanksExactly ctx pass.claimed summary events →
    ∃ event, ctx.m4Candidates[pass.entryRank]? = some event ∧ event.sequence ∉ pass.claimed
  texts : ∀ m4, decideM4 ctx record pass.entryRank pass.lower pass.claimed = .ok m4 →
    MatchedCut ctx record m4.1

section Record
variable {ctx : Ctx} {record : M6Event} {pass : Pass} {captureId : String}

theorem decideM4_cases (ctx : Ctx) (record : M6Event) (pass : Pass) :
    (∃ m4, decideM4 ctx record pass.entryRank pass.lower pass.claimed = .ok m4 ∧
      ∀ matched, m4.1.matched? = some matched → ∃ sequence, matched = m4EventId sequence) ∨
    decideM4 ctx record pass.entryRank pass.lower pass.claimed = .error .panicked := by
  by_cases hranks : ∃ summary events, RanksExactly ctx pass.claimed summary events
  · obtain ⟨summary, events, hranks⟩ := hranks
    rw [decideM4_of_ranks hranks, decideByRank_of_same hranks.same]
    cases ctx.m4Candidates[pass.entryRank]? with
    | none => exact .inr rfl
    | some event =>
      refine .inl ⟨_, rfl, ?_⟩
      exact fun matched hmatched => ⟨_, (Option.some.inj hmatched).symm⟩
  · push Not at hranks
    obtain ⟨m4, hm4, hpool⟩ := @decideM4_of_not_ranks ctx record pass.entryRank pass.lower _ hranks
    refine .inl ⟨m4, hm4, fun matched hmatched => ?_⟩
    obtain ⟨event, -, -, hevent⟩ := hpool matched hmatched
    exact ⟨_, hevent⟩

theorem decideM4_of_admits (h : pass.Admits ctx record) :
    ∃ m4, decideM4 ctx record pass.entryRank pass.lower pass.claimed = .ok m4 ∧
      ∀ matched, m4.1.matched? = some matched →
        ∃ sequence, sequence ∉ pass.claimed ∧ matched = m4EventId sequence := by
  by_cases hranks : ∃ summary events, RanksExactly ctx pass.claimed summary events
  · obtain ⟨summary, events, hranks⟩ := hranks
    obtain ⟨event, hevent, hfree⟩ := h.rank summary events hranks
    rw [decideM4_of_ranks hranks, decideByRank_of_same hranks.same, hevent]
    refine ⟨_, rfl, ?_⟩
    exact fun matched hmatched => ⟨_, hfree, (Option.some.inj hmatched).symm⟩
  · push Not at hranks
    obtain ⟨m4, hm4, hpool⟩ := @decideM4_of_not_ranks ctx record pass.entryRank pass.lower _ hranks
    refine ⟨m4, hm4, fun matched hmatched => ?_⟩
    obtain ⟨event, hevent, -, rfl⟩ := hpool matched hmatched
    refine ⟨_, ?_, rfl⟩
    have hfree := (List.mem_filter.mp hevent).2
    rw [Bool.not_eq_true', List.contains_eq_mem, decide_eq_false_iff_not] at hfree
    exact hfree

theorem decideIncomplete_matched (ctx : Ctx) (record : M6Event) :
    (decideIncomplete ctx record).m4Entry.matched? = none := by
  unfold decideIncomplete
  dsimp only
  split <;> rfl

def claimsOf (decided : Decided) : List Nat :=
  (decided.m4Entry.matched?.map EventId.sequence).toList

theorem decideRecord_cases (h : ctx.Paired) (pass : Pass) (record : M6Event) :
    (∃ decided, decideRecord ctx pass record = .ok decided ∧
      ∀ matched, decided.m4Entry.matched? = some matched →
        record.complete = true ∧ ∃ sequence, matched = m4EventId sequence) ∨
    decideRecord ctx pass record = .error .panicked := by
  unfold decideRecord
  cases hcomplete : record.complete with
  | false =>
    refine .inl ⟨_, rfl, fun matched hmatched => ?_⟩
    rw [decideIncomplete_matched] at hmatched
    cases hmatched
  | true =>
    simp only [if_true]
    rcases decideM4_cases ctx record pass with ⟨m4, hm4, hmatched⟩ | hm4
    · by_cases hcut : MatchedCut ctx record m4.1
      · obtain ⟨checks, hchecks⟩ := checkMatched_of_cut hcut
        obtain ⟨decided, hdecided, hentry⟩ := decideComplete_of_ok h hm4 hchecks
        refine .inl ⟨decided, hdecided, ?_⟩
        rw [hentry]
        exact fun matched h => ⟨trivial, hmatched matched h⟩
      · exact .inr (decideComplete_of_checks h hm4 (checkMatched_of_not_cut hcut))
    · exact .inr (decideComplete_of_m4 hm4)

theorem decideRecord_of_admits (hpaired : ctx.Paired)
    (h : record.complete = true → pass.Admits ctx record) :
    ∃ decided, decideRecord ctx pass record = .ok decided ∧
      ∀ sequence ∈ claimsOf decided, sequence ∉ pass.claimed := by
  unfold decideRecord
  cases hcomplete : record.complete with
  | false =>
    refine ⟨_, rfl, fun sequence hsequence => ?_⟩
    unfold claimsOf at hsequence
    rw [decideIncomplete_matched] at hsequence
    cases hsequence
  | true =>
    obtain ⟨m4, hm4, hmatched⟩ := decideM4_of_admits (h hcomplete)
    obtain ⟨checks, hchecks⟩ := checkMatched_of_cut ((h hcomplete).texts m4 hm4)
    obtain ⟨decided, hdecided, hentry⟩ := decideComplete_of_ok hpaired hm4 hchecks
    refine ⟨decided, hdecided, fun sequence hsequence => ?_⟩
    unfold claimsOf at hsequence
    rw [hentry, Option.mem_toList, Option.map_eq_some_iff] at hsequence
    obtain ⟨matched, hm4matched, rfl⟩ := hsequence
    obtain ⟨sequence, hfree, rfl⟩ := hmatched matched hm4matched
    exact hfree

/-- A record that is not admitted panics the join, or claims what a chain has. -/
theorem decideRecord_of_not_admits (hpaired : ctx.Paired) (hcomplete : record.complete = true)
    (h : ¬ pass.Admits ctx record) :
    decideRecord ctx pass record = .error .panicked ∨
      ∃ decided, decideRecord ctx pass record = .ok decided ∧
        ∃ sequence ∈ claimsOf decided, sequence ∈ pass.claimed := by
  unfold decideRecord
  rw [hcomplete]
  simp only [if_true]
  rcases decideM4_cases ctx record pass with ⟨m4, hm4, -⟩ | hm4
  · by_cases hcut : MatchedCut ctx record m4.1
    · right
      obtain ⟨checks, hchecks⟩ := checkMatched_of_cut hcut
      obtain ⟨decided, hdecided, hentry⟩ := decideComplete_of_ok hpaired hm4 hchecks
      refine ⟨decided, hdecided, ?_⟩
      by_contra hfree
      push Not at hfree
      apply h
      constructor
      case rank =>
        intro summary events hranks
        rw [decideM4_of_ranks hranks, decideByRank_of_same hranks.same] at hm4
        cases hevent : ctx.m4Candidates[pass.entryRank]? with
        | none =>
          rw [hevent] at hm4
          cases hm4
        | some event =>
          rw [hevent] at hm4
          cases hm4
          refine ⟨event, rfl, hfree event.sequence ?_⟩
          unfold claimsOf
          rw [hentry]
          exact List.mem_singleton_self _
      case texts =>
        intro other hother
        obtain rfl := Except.ok.inj (hm4.symm.trans hother)
        exact hcut
    · exact .inl (decideComplete_of_checks hpaired hm4 (checkMatched_of_not_cut hcut))
  · exact .inl (decideComplete_of_m4 hm4)

end Record

/-! ## The pass over the records -/

section Run
variable {evidence : Evidence} {captureId : String} {before : List M6Event} {pass : Pass}

structure Pass.Holds (evidence : Evidence) (pass : Pass) (before : List M6Event) : Prop where
  chains : pass.chains.map Chain.m6Sequence = before.map M6Event.sequence
  claimed : pass.chains.filterMap Chain.claim = pass.claimed.map m4EventId
  returned : pass.unmatched.filterMap Unmatched.returned =
    evidence.pairing.unmatched.filterMap Unmatched.returned

theorem returned_of_eventless {unmatched : Unmatched} (h : unmatched.event = none) :
    unmatched.returned = none := by
  unfold Unmatched.returned
  rw [h]
  exact ite_self _

theorem returned_stages (sequence : Nat) (stages : List (Stage × Decision)) :
    (stages.flatMap fun stage => stageUnmatched sequence stage.1 stage.2).filterMap
      Unmatched.returned = [] := by
  rw [List.filterMap_eq_nil_iff]
  intro unmatched hunmatched
  obtain ⟨stage, -, hstage⟩ := List.mem_flatMap.mp hunmatched
  apply returned_of_eventless
  unfold stageUnmatched at hstage
  split at hstage
  · rw [List.mem_singleton.mp hstage]
  · cases hstage

def Claimable (record : M6Event) (decided : Decided) : Prop :=
  ∀ matched, decided.m4Entry.matched? = some matched →
    record.complete = true ∧ ∃ sequence, matched = m4EventId sequence

theorem after_claimed (ctx : Ctx) {record : M6Event} {decided : Decided}
    (h : Claimable record decided) :
    (pass.after ctx captureId record decided).claimed = pass.claimed ++ claimsOf decided := by
  unfold Pass.after claimsOf
  dsimp only
  cases hmatched : decided.m4Entry.matched? with
  | none => rw [Option.toList_none, List.map_nil, ite_self, Option.map_none, Option.toList_none]
  | some matched =>
    rw [(h matched hmatched).1]
    rfl

theorem Pass.Holds.after (h : pass.Holds evidence before) (ctx : Ctx) {record : M6Event}
    {decided : Decided} (hclaim : Claimable record decided) :
    (pass.after ctx captureId record decided).Holds evidence (before ++ [record]) := by
  constructor
  case chains =>
    unfold Pass.after
    rw [List.map_append, h.chains, List.map_append]
    rfl
  case claimed =>
    rw [after_claimed ctx hclaim, List.map_append, ← h.claimed]
    unfold Pass.after
    dsimp only
    rw [List.filterMap_append]
    congr 1
    unfold claimsOf
    change (decided.m4Entry.matched?).toList = _
    cases hmatched : decided.m4Entry.matched? with
    | none => rfl
    | some matched =>
      obtain ⟨-, sequence, rfl⟩ := hclaim matched hmatched
      rfl
  case returned =>
    unfold Pass.after
    dsimp only
    rw [List.filterMap_append, returned_stages, List.append_nil]
    exact h.returned

def Evidence.passOver (evidence : Evidence) (captureId : String) (records : List M6Event)
    (pass : Pass) : Except Failure Pass :=
  records.foldlM (Pass.step evidence.ctx captureId) pass

theorem pass_cons (record : M6Event) (records : List M6Event) (pass : Pass) :
    evidence.passOver captureId (record :: records) pass =
      decideRecord evidence.ctx pass record >>= fun decided =>
        evidence.passOver captureId records (pass.after evidence.ctx captureId record decided) := by
  unfold Evidence.passOver
  rw [List.foldlM_cons]
  unfold Pass.step
  cases decideRecord evidence.ctx pass record <;> rfl

theorem pass_append (front back : List M6Event) (pass : Pass) :
    evidence.passOver captureId (front ++ back) pass =
      evidence.passOver captureId front pass >>= fun reached =>
        evidence.passOver captureId back reached := by
  unfold Evidence.passOver
  exact List.foldlM_append

theorem pass_cases (hpaired : evidence.ctx.Paired) {records : List M6Event} :
    ∀ {pass : Pass} {before : List M6Event}, pass.Holds evidence before →
      (∃ after, evidence.passOver captureId records pass = .ok after ∧
        after.Holds evidence (before ++ records) ∧ pass.claimed <+: after.claimed) ∨
      evidence.passOver captureId records pass = .error .panicked := by
  induction records with
  | nil =>
    intro pass before h
    rw [List.append_nil]
    exact .inl ⟨pass, rfl, h, List.prefix_rfl⟩
  | cons record records ih =>
    intro pass before h
    rw [pass_cons]
    rcases decideRecord_cases hpaired pass record with ⟨decided, hdecided, hclaim⟩ | hpanic
    · rw [hdecided, List.append_cons]
      rcases ih (@Pass.Holds.after _ captureId _ _ h evidence.ctx _ _ hclaim) with
        ⟨after, hafter, hholds, hgrows⟩ | hpanic
      · refine .inl ⟨after, hafter, hholds, List.IsPrefix.trans ?_ hgrows⟩
        rw [after_claimed _ hclaim]
        exact List.prefix_append _ _
      · exact .inr hpanic
    · rw [hpanic]
      exact .inr rfl

def Evidence.Admitted (evidence : Evidence) (captureId : String) : Prop :=
  ∀ front record back pass, evidence.records = front ++ record :: back →
    evidence.passOver captureId front evidence.start = .ok pass → record.complete = true →
      pass.Admits evidence.ctx record

theorem pass_admitted (hpaired : evidence.ctx.Paired) (h : evidence.Admitted captureId)
    {records : List M6Event} : ∀ {pass : Pass} {before : List M6Event},
      evidence.records = before ++ records →
      evidence.passOver captureId before evidence.start = .ok pass → pass.claimed.Nodup →
        ∃ after, evidence.passOver captureId records pass = .ok after ∧ after.claimed.Nodup := by
  induction records with
  | nil => exact fun _ _ hnodup => ⟨_, rfl, hnodup⟩
  | cons record records ih =>
    intro pass before hrecords hreached hnodup
    obtain ⟨decided, hdecided, hfree⟩ := decideRecord_of_admits hpaired
      (h before record records pass hrecords hreached)
    have hclaim : Claimable record decided := by
      rcases decideRecord_cases hpaired pass record with ⟨other, hother, hclaim⟩ | hpanic
      · obtain rfl := Except.ok.inj (hdecided.symm.trans hother)
        exact hclaim
      · rw [hdecided] at hpanic
        cases hpanic
    rw [pass_cons, hdecided]
    apply @ih (pass.after evidence.ctx captureId record decided) (before ++ [record])
    · rw [hrecords, List.append_cons]
    · rw [pass_append, hreached]
      change evidence.passOver captureId [record] pass = _
      rw [pass_cons, hdecided]
      rfl
    · rw [after_claimed _ hclaim, List.nodup_append]
      refine ⟨hnodup, ?_, ?_⟩
      · unfold claimsOf
        cases decided.m4Entry.matched? with
        | none => exact List.nodup_nil
        | some matched => exact List.nodup_singleton _
      · rintro sequence hearlier _ hnew rfl
        exact hfree sequence hnew hearlier

/-- A record that is not admitted panics the join, or leaves a claim that is made twice. -/
theorem pass_of_not_admitted (hpaired : evidence.ctx.Paired)
    (hstart : evidence.start.Holds evidence []) (h : ¬ evidence.Admitted captureId) :
    evidence.passOver captureId evidence.records evidence.start = .error .panicked ∨
      ∃ after, evidence.passOver captureId evidence.records evidence.start = .ok after ∧
        ¬ after.claimed.Nodup := by
  unfold Evidence.Admitted at h
  push Not at h
  obtain ⟨front, record, back, pass, hrecords, hreached, hcomplete, hrefused⟩ := h
  have hrun : evidence.passOver captureId evidence.records evidence.start =
      decideRecord evidence.ctx pass record >>= fun decided =>
        evidence.passOver captureId back (pass.after evidence.ctx captureId record decided) := by
    rw [hrecords, pass_append, hreached]
    exact pass_cons record back pass
  rw [hrun]
  have hholds : pass.Holds evidence front := by
    rcases @pass_cases _ captureId hpaired front _ _ hstart with
      ⟨other, hother, hholds, -⟩ | hpanic
    · obtain rfl := Except.ok.inj (hreached.symm.trans hother)
      exact hholds
    · rw [hreached] at hpanic
      cases hpanic
  rcases decideRecord_of_not_admits hpaired hcomplete hrefused with
    hpanic | ⟨decided, hdecided, sequence, hnew, hearlier⟩
  · rw [hpanic]
    exact .inl rfl
  have hclaim : Claimable record decided := by
    rcases decideRecord_cases hpaired pass record with ⟨other, hother, hclaim⟩ | hpanic
    · obtain rfl := Except.ok.inj (hdecided.symm.trans hother)
      exact hclaim
    · rw [hdecided] at hpanic
      cases hpanic
  rw [hdecided]
  rcases @pass_cases _ captureId hpaired back _ _
    (@Pass.Holds.after _ captureId _ _ hholds evidence.ctx _ _ hclaim) with
      ⟨after, hafter, -, hgrows⟩ | hpanic
  · refine .inr ⟨after, hafter, fun hnodup => ?_⟩
    have hbefore := hnodup.sublist hgrows.sublist
    rw [after_claimed _ hclaim, List.nodup_append] at hbefore
    exact hbefore.2.2 sequence hearlier sequence hnew rfl
  · exact .inl hpanic

end Run

/-! ## The join -/

/-- What a joined capture owes its input. -/
structure JoinedCapture.Conserves (joined : JoinedCapture) (input : JoinInput) : Prop where
  /-- one chain for each record, in the order of their sequence numbers -/
  records : ∀ trace, input.layers.m6Vtl1.trace = .ok trace →
    (joined.chains.map Chain.m6Sequence).Perm (trace.records.map M6Record.sequence)
  sorted : (joined.chains.map Chain.m6Sequence).Pairwise (· ≤ ·)
  once : (joined.chains.filterMap Chain.claim).Nodup
  candidates : ∀ source trace, input.layers.m4Vtl0 = some source → source.trace = .ok trace →
    ∀ event ∈ (normalizeM4 input.selectedService input.secureCallKind trace source).2.1,
      event.candidate = true →
        (∃ chain ∈ joined.chains, chain.claim = some (m4EventId event.sequence)) ∨
          ∃ unmatched ∈ joined.unmatched, unmatched.event = some (m4EventId event.sequence)
  transitions : ∀ source trace, input.layers.m5Hypervisor = some source →
    source.trace = .ok trace →
      ({ trips := joined.roundTrips, unmatched := joined.unmatched } : Pairing).Accounts
        (firstVp (normalizeM5 trace source).2.1) (normalizeM5 trace source).2.1
  barrier : ∀ clock events,
    (pairRoundTrips clock events).Barred ↔ m5HasPairingBarrier events = true

section Join
variable {input : JoinInput} {evidence : Evidence} {pass : Pass}

theorem read_eq_ok {τ : Type} {layer : Layer} {source : LayerSource τ} {trace : τ} :
    read layer source = .ok trace ↔ source.trace = .ok trace := by
  unfold read
  exact mapError_eq_ok

theorem bind_ne_panicked {α β : Type} {first : Except Failure α} {next : α → Except Failure β}
    (hfirst : first ≠ .error .panicked) (hnext : ∀ value, next value ≠ .error .panicked) :
    first >>= next ≠ .error .panicked := by
  cases first with
  | error failure => exact fun h => hfirst (congrArg Except.error (Except.error.inj h))
  | ok value => exact hnext value

theorem mapError_refused {α : Type} (first : Except String α) (message : String → String) :
    first.mapError (fun why => Failure.refused (message why)) ≠ .error .panicked := by
  cases first with
  | error why => exact nofun
  | ok value => exact nofun

theorem readOption_ne_panicked {τ : Type} (layer : Layer) (source : Option (LayerSource τ)) :
    readOption layer source ≠ .error .panicked := by
  unfold readOption
  cases source with
  | none => exact nofun
  | some source => exact bind_ne_panicked (mapError_refused _ _) fun _ => nofun

theorem prepare_ne_panicked (input : JoinInput) : prepare input ≠ .error .panicked := by
  unfold prepare
  split
  · exact nofun
  apply bind_ne_panicked (mapError_refused _ _)
  intro _
  apply bind_ne_panicked (mapError_refused _ _)
  intro m6
  dsimp only
  split
  · exact nofun
  · apply bind_ne_panicked (readOption_ne_panicked _ _)
    intro m4
    exact bind_ne_panicked (readOption_ne_panicked _ _) fun _ => nofun

theorem prepare_eq_ok (h : prepare input = .ok evidence) :
    ∃ m6 m4 m5, input.layers.m6Vtl1.trace = .ok m6 ∧
      readOption .m4Vtl0 input.layers.m4Vtl0 = .ok m4 ∧
      readOption .m5Hypervisor input.layers.m5Hypervisor = .ok m5 ∧
      evidence = evidenceOf input m6 m4 m5 := by
  unfold prepare at h
  split at h
  · cases h
  simp only [bind_eq_ok] at h
  obtain ⟨-, -, m6, hm6, h⟩ := h
  split at h
  · cases h
  simp only [bind_eq_ok] at h
  obtain ⟨m4, hm4, m5, hm5, h⟩ := h
  exact ⟨m6, m4, m5, read_eq_ok.mp hm6, hm4, hm5, (Except.ok.inj h).symm⟩

theorem readOption_some {τ : Type} {layer : Layer} {source : LayerSource τ} {trace : τ}
    (h : source.trace = .ok trace) :
    readOption layer (some source) = .ok (some (source, trace)) := by
  unfold readOption
  dsimp only
  rw [read_eq_ok.mpr h]
  rfl

theorem evidenceOf_paired (input : JoinInput) (m6 : M6Trace)
    (m4 : Option (LayerSource M4Trace × M4Trace)) (m5 : Option (LayerSource M5Trace × M5Trace)) :
    (evidenceOf input m6 m4 m5).ctx.Paired := by
  unfold Ctx.Paired
  cases m5 <;> rfl

theorem start_holds (evidence : Evidence) : evidence.start.Holds evidence [] where
  chains := rfl
  claimed := rfl
  returned := rfl

theorem join_eq (h : prepare input = .ok evidence) :
    join input = evidence.passOver input.identity.captureId evidence.records evidence.start >>=
      fun pass => .ok (conclude input evidence pass) := by
  unfold join
  rw [h]
  rfl

theorem returned_unclaimed (evidence : Evidence) (claimed : List Nat) :
    (evidence.unclaimed claimed).filterMap Unmatched.returned = [] := by
  unfold Evidence.unclaimed
  rw [List.filterMap_map, List.filterMap_eq_nil_iff]
  exact fun _ _ => rfl

theorem conclude_claims (hholds : pass.Holds evidence evidence.records) :
    ((conclude input evidence pass).chains.filterMap Chain.claim).Nodup ↔ pass.claimed.Nodup := by
  change (pass.chains.filterMap Chain.claim).Nodup ↔ _
  rw [hholds.claimed]
  exact List.nodup_map_iff m4EventId_injective

/-- A pass over all the records that claims nothing twice conserves the input. -/
theorem conclude_conserves (h : prepare input = .ok evidence)
    (hholds : pass.Holds evidence evidence.records) (hnodup : pass.claimed.Nodup) :
    (conclude input evidence pass).Conserves input := by
  obtain ⟨m6, m4, m5, hm6, hm4, hm5, rfl⟩ := prepare_eq_ok h
  have hchains : (conclude input (evidenceOf input m6 m4 m5) pass).chains.map Chain.m6Sequence =
      (evidenceOf input m6 m4 m5).records.map M6Event.sequence := hholds.chains
  constructor
  case records =>
    intro trace htrace
    obtain rfl := Except.ok.inj (hm6.symm.trans htrace)
    rw [hchains]
    refine (sortBySequence_perm.map _).trans ?_
    rw [List.map_map]
    exact List.Perm.refl _
  case sorted =>
    rw [hchains, List.pairwise_map]
    exact sortBySequence_sorted
  case once => exact (conclude_claims hholds).mpr hnodup
  case candidates =>
    intro source trace hsource htrace event hevent hcandidate
    rw [hsource, readOption_some htrace] at hm4
    obtain rfl := Except.ok.inj hm4
    by_cases hclaimed : event.sequence ∈ pass.claimed
    · left
      have hmem := @List.mem_map_of_mem _ _ _ _ m4EventId hclaimed
      rw [← hholds.claimed, List.mem_filterMap] at hmem
      exact hmem
    · right
      refine ⟨_, List.mem_append_right _ (List.mem_map_of_mem ?_), rfl⟩
      refine List.mem_filter.mpr ⟨List.mem_filter.mpr ⟨hevent, hcandidate⟩, ?_⟩
      rw [Bool.not_eq_true', List.contains_eq_mem, decide_eq_false_iff_not]
      exact hclaimed
  case transitions =>
    intro source trace hsource htrace
    rw [hsource, readOption_some htrace] at hm5
    obtain rfl := Except.ok.inj hm5
    have haccounts := pairRoundTrips_accounts
      ⟨input.clock.mode == .point, input.clock.frequency⟩ (normalizeM5 trace source).2.1
    refine ⟨haccounts.calls, ?_, nofun, haccounts.ordered⟩
    refine List.Perm.trans (List.Perm.of_eq ?_) haccounts.returns
    change _ ++ (pass.unmatched ++ Evidence.unclaimed _ _).filterMap _ = _
    rw [List.filterMap_append, returned_unclaimed, List.append_nil, hholds.returned]
    rfl
  case barrier => exact pairRoundTrips_barred_iff

/-- The join does not panic and conserves its input just when each complete record that is decided
by its rank finds an unclaimed candidate there, and every matched text can be cut. -/
theorem join_conserves_iff (input : JoinInput) :
    (join input ≠ .error .panicked ∧
      ∀ joined, join input = .ok joined → joined.Conserves input) ↔
      ∀ evidence, prepare input = .ok evidence → evidence.Admitted input.identity.captureId := by
  constructor
  · rintro ⟨htotal, hconserves⟩ evidence h
    by_contra hrefused
    have hpaired : evidence.ctx.Paired := by
      obtain ⟨m6, m4, m5, -, -, -, rfl⟩ := prepare_eq_ok h
      exact evidenceOf_paired input m6 m4 m5
    rcases pass_of_not_admitted hpaired (start_holds evidence) hrefused with
      hpanic | ⟨pass, hpass, htwice⟩
    · apply htotal
      rw [join_eq h, hpanic]
      rfl
    · rcases @pass_cases _ input.identity.captureId hpaired evidence.records _ _
        (start_holds evidence) with ⟨other, hother, hholds, -⟩ | hpanic
      · obtain rfl := Except.ok.inj (hpass.symm.trans hother)
        apply htwice
        rw [← @conclude_claims input _ _ hholds]
        apply (hconserves _ _).once
        rw [join_eq h, hpass]
        rfl
      · rw [hpass] at hpanic
        cases hpanic
  · intro hadmitted
    cases h : prepare input with
    | error failure =>
      have hjoin : join input = .error failure := by
        unfold join
        rw [h]
        rfl
      rw [hjoin]
      refine ⟨fun hpanic => prepare_ne_panicked input (h.trans ?_), fun _ => nofun⟩
      exact congrArg Except.error (Except.error.inj hpanic)
    | ok evidence =>
      have hpaired : evidence.ctx.Paired := by
        obtain ⟨m6, m4, m5, -, -, -, rfl⟩ := prepare_eq_ok h
        exact evidenceOf_paired input m6 m4 m5
      obtain ⟨pass, hpass, hnodup⟩ := @pass_admitted _ _ hpaired (hadmitted evidence h)
        evidence.records evidence.start [] rfl rfl List.nodup_nil
      have hholds : pass.Holds evidence evidence.records := by
        rcases @pass_cases _ input.identity.captureId hpaired evidence.records _ _
          (start_holds evidence) with ⟨other, hother, hholds, -⟩ | hpanic
        · obtain rfl := Except.ok.inj (hpass.symm.trans hother)
          exact hholds
        · rw [hpass] at hpanic
          cases hpanic
      rw [join_eq h, hpass]
      refine ⟨nofun, fun joined hjoined => ?_⟩
      cases hjoined
      exact conclude_conserves h hholds hnodup

end Join

section Example

def exampleBracket (before after : Nat) : RpcClockBracket :=
  ⟨"layer", "operation", ⟨before, 10⟩, none, ⟨after, 10⟩⟩

/-- One selected call, whose window contains the two records: one incomplete with an entry phase,
and one complete without. -/
def rankWithoutCandidate : JoinInput where
  schema := joinInputSchema
  identity := exampleIdentity
  clock := ⟨.intervalOnly, none, none, 0, [], []⟩
  selectedService := 5
  layers :=
    { m4Vtl0 :=
        some
          { trace := .ok
              { calls := [{ sequence := 1, transitionKind := some 2, service := some 5 }] }
            arm := some (exampleBracket 1 2)
            drain := some (exampleBracket 9 10) }
      m5Hypervisor := none
      m6Vtl1 :=
        { trace := .ok
            { selectedService := 5
              records :=
                [{ sequence := 1, entry := some ⟨{}, 5⟩ }, { sequence := 2, complete := true }] }
          arm := some (exampleBracket 3 4)
          drain := some (exampleBracket 5 6) } }

theorem rankWithoutCandidate_panics :
    ¬ (join rankWithoutCandidate ≠ .error .panicked ∧
      ∀ joined, join rankWithoutCandidate = .ok joined →
        joined.Conserves rankWithoutCandidate) := by
  rintro ⟨htotal, -⟩
  apply htotal
  unfold join
  rw [prepare_example rfl rfl rfl rfl rfl rfl]
  decide +kernel

end Example

end WindbgMcp.SkJoin
