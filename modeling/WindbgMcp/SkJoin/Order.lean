import WindbgMcp.Library.StableSort
import WindbgMcp.SkJoin.Reading

/-! The order in which the events of a trace arrive. The sort by sequence number is stable, so
events of one number stay in that order; where the join reads the same of them, it does not depend
on it. -/
namespace WindbgMcp.SkJoin
open WindbgMcp.Library WindbgMcp.Correlate

def TiesAgree {α β : Type} (event : α → β) (sequence : β → Nat) (events : List α) : Prop :=
  ∀ first ∈ events, ∀ second ∈ events,
    sequence (event first) = sequence (event second) → event first = event second

theorem TiesAgree.sort_eq {α β : Type} {event : α → β} {sequence : β → Nat}
    {events others : List α} (h : TiesAgree event sequence events) (hperm : events.Perm others) :
    sortBySequence sequence (events.map event) = sortBySequence sequence (others.map event) := by
  apply List.Perm.eq_of_pairwise _ sortBySequence_sorted sortBySequence_sorted
  · exact (sortBySequence_perm.trans (hperm.map event)).trans sortBySequence_perm.symm
  · intro first second hfirst hsecond hle hge
    rw [mem_sortBySequence] at hfirst hsecond
    obtain ⟨one, hone, rfl⟩ := List.mem_map.mp hfirst
    obtain ⟨two, htwo, rfl⟩ := List.mem_map.mp hsecond
    exact h one hone two (hperm.mem_iff.mpr htwo) (Nat.le_antisymm hle hge)

theorem TiesAgree.perm {α β : Type} {event : α → β} {sequence : β → Nat} {events others : List α}
    (h : TiesAgree event sequence events) (hperm : events.Perm others) :
    TiesAgree event sequence others := by
  intro first hfirst second hsecond
  exact h first (hperm.mem_iff.mpr hfirst) second (hperm.mem_iff.mpr hsecond)

/-- Sorted, the events read the same in whatever order they arrived. -/
theorem sort_read {α β : Type} (event : α → β) (read : β → β) {sequence : β → Nat}
    {events others : List α} (hsequence : ∀ event, sequence (read event) = sequence event)
    (h : TiesAgree (fun arrived => read (event arrived)) sequence events)
    (hperm : events.Perm others) :
    (sortBySequence sequence (events.map event)).map read =
      (sortBySequence sequence (others.map event)).map read := by
  have hmap (arrived : List α) : (sortBySequence sequence (arrived.map event)).map read =
      sortBySequence sequence (arrived.map fun one => read (event one)) := by
    unfold sortBySequence
    rw [List.map_insertionSort (fun first second => sequence first ≤ sequence second)
      (fun first second => sequence first ≤ sequence second) read, List.map_map]
    · rfl
    · intro first _ second _
      rw [hsequence, hsequence]
  rw [hmap, hmap, h.sort_eq hperm]

/-- The events of a layer are read in the same order whatever order they arrive in just when those
of one sequence number read the same. -/
theorem sort_free_iff {α β : Type} [DecidableEq α] {event : α → β} {sequence : β → Nat}
    {events : List α} :
    (∀ others, events.Perm others → sortBySequence sequence (events.map event) =
      sortBySequence sequence (others.map event)) ↔ TiesAgree event sequence events := by
  refine ⟨fun h first hfirst second hsecond htie => ?_, fun h others => h.sort_eq⟩
  by_contra hapart
  have hother : second ∈ events.erase first :=
    (List.mem_erase_of_ne fun heq => hapart (congrArg event heq.symm)).mpr hsecond
  have hperm : events.Perm (first :: second :: (events.erase first).erase second) :=
    (List.perm_cons_erase hfirst).trans ((List.perm_cons_erase hother).cons first)
  have hsorts := (h _ hperm).symm.trans (h _ (hperm.trans (List.Perm.swap second first _)))
  have : IsTrans β fun one two => sequence one ≤ sequence two := ⟨fun _ _ _ => Nat.le_trans⟩
  have hties := congrArg (ties (fun one two => sequence one ≤ sequence two) (event first)) hsorts
  unfold sortBySequence at hties
  rw [ties_insertionSort, ties_insertionSort, List.map_cons, List.map_cons, List.map_cons,
    List.map_cons, ties_cons, if_pos ⟨Nat.le_refl _, Nat.le_refl _⟩, ties_cons,
    if_pos ⟨htie.le, htie.ge⟩, ties_cons, if_pos ⟨htie.le, htie.ge⟩] at hties
  exact hapart (List.cons.inj hties).1

/-! ## The evidence in another order -/

def M4Trace.Shuffles (trace other : M4Trace) : Prop :=
  other = { trace with calls := other.calls } ∧ trace.calls.Perm other.calls

def M5Trace.Shuffles (trace other : M5Trace) : Prop :=
  other = { trace with transitions := other.transitions } ∧
    trace.transitions.Perm other.transitions

def M6Trace.Shuffles (trace other : M6Trace) : Prop :=
  other = { trace with records := other.records } ∧ trace.records.Perm other.records

/-- A layer's trace in another order, between the same brackets. -/
structure LayerSource.Shuffles {τ : Type} (shuffles : τ → τ → Prop)
    (source other : LayerSource τ) : Prop where
  arm : source.arm = other.arm
  drain : source.drain = other.drain
  trace : (∃ why, source.trace = .error why ∧ other.trace = .error why) ∨
    ∃ trace shuffled, source.trace = .ok trace ∧ other.trace = .ok shuffled ∧
      shuffles trace shuffled

/-- The same input, but for the order of the calls, the transitions and the records. -/
structure JoinInput.Shuffles (input other : JoinInput) : Prop where
  same : other = { input with layers := other.layers }
  m4 : Option.Rel (LayerSource.Shuffles M4Trace.Shuffles) input.layers.m4Vtl0
    other.layers.m4Vtl0
  m5 : Option.Rel (LayerSource.Shuffles M5Trace.Shuffles) input.layers.m5Hypervisor
    other.layers.m5Hypervisor
  m6 : input.layers.m6Vtl1.Shuffles M6Trace.Shuffles other.layers.m6Vtl1

def JoinInput.compares (input : JoinInput) : Bool :=
  input.layers.m4Vtl0.any fun source => source.trace.toOption.any fun trace =>
    trace.calls.any fun call =>
      (call.event input.selectedService input.secureCallKind).selected

/-- In each layer the join reads the same of the events that repeat a sequence number. -/
structure JoinInput.TiesAgree (input : JoinInput) : Prop where
  m4 : ∀ source trace, input.layers.m4Vtl0 = some source → source.trace = .ok trace →
    SkJoin.TiesAgree
      (fun call => (M4Call.event input.selectedService input.secureCallKind call).read
        input.hostClock) M4Event.sequence trace.calls
  m5 : ∀ source trace, input.layers.m5Hypervisor = some source → source.trace = .ok trace →
    SkJoin.TiesAgree (fun transition => (M5Transition.event transition).read input.hostClock)
      M5Event.sequence trace.transitions
  m6 : ∀ trace, input.layers.m6Vtl1.trace = .ok trace →
    SkJoin.TiesAgree
      (fun record => (M6Record.event record).read input.hostClock input.compares)
      M6Event.sequence trace.records

/-- What cannot be joined at all, whatever the order: nothing of it is sorted. -/
inductive JoinInput.Refused (input : JoinInput) : Prop
  | schema (h : input.schema ≠ joinInputSchema)
  | identity (h : input.identity.validate ≠ .ok ())
  | m6 (h : ∀ trace, input.layers.m6Vtl1.trace ≠ .ok trace)
  | service (trace : M6Trace) (h : input.layers.m6Vtl1.trace = .ok trace)
      (hservice : trace.selectedService ≠ input.selectedService)
  | m4 (source : LayerSource M4Trace) (h : input.layers.m4Vtl0 = some source)
      (htrace : ∀ trace, source.trace ≠ .ok trace)
  | m5 (source : LayerSource M5Trace) (h : input.layers.m5Hypervisor = some source)
      (htrace : ∀ trace, source.trace ≠ .ok trace)

def JoinInput.ArrivalFree (input : JoinInput) : Prop :=
  ∀ other, input.Shuffles other → join input = join other

section Shuffled
variable {τ : Type} {input other : JoinInput}

structure ReadsAlike {β : Type} (read : β → β) (one two : LayerSummary × List β × List Mark) :
    Prop where
  summary : one.1 = two.1
  events : one.2.1.map read = two.2.1.map read
  marks : one.2.2 = two.2.2

theorem summarize_congr {source shuffled : LayerSource τ} (harm : source.arm = shuffled.arm)
    (hdrain : source.drain = shuffled.drain) (layer : Layer) (sequences : List Nat)
    (counters : Counters) :
    summarize layer sequences counters source = summarize layer sequences counters shuffled := by
  unfold summarize
  rw [harm, hdrain]

theorem sequences_of_read {β : Type} {read : β → β} {sequence : β → Nat} {events others : List β}
    (h : events.map read = others.map read)
    (hsequence : ∀ event, sequence (read event) = sequence event) : events.map sequence = others.map sequence := by
  have hmap (list : List β) : list.map sequence = (list.map read).map sequence := by
    rw [List.map_map]
    exact List.map_congr_left fun event _ => (hsequence event).symm
  rw [hmap, hmap others, h]

section Layers
variable {selectedService secureCallKind : Nat} {clock : Clock} {compares : Bool}

theorem normalizeM4_shuffles {trace shuffled : M4Trace} {source other : LayerSource M4Trace}
    (hsource : source.Shuffles M4Trace.Shuffles other) (h : trace.Shuffles shuffled)
    (hties : TiesAgree (fun call => (M4Call.event selectedService secureCallKind call).read clock)
      M4Event.sequence trace.calls) :
    ReadsAlike (M4Event.read clock) (normalizeM4 selectedService secureCallKind trace source)
      (normalizeM4 selectedService secureCallKind shuffled other) := by
  have hevents := sort_read (M4Call.event selectedService secureCallKind) (M4Event.read clock)
    (fun _ => rfl) hties h.2
  unfold normalizeM4
  dsimp only
  rw [sequences_of_read hevents fun _ => rfl, summarize_congr hsource.arm hsource.drain, h.1]
  exact ⟨rfl, hevents, rfl⟩

theorem normalizeM5_shuffles {trace shuffled : M5Trace} {source other : LayerSource M5Trace}
    (hsource : source.Shuffles M5Trace.Shuffles other) (h : trace.Shuffles shuffled)
    (hties : TiesAgree (fun transition => (M5Transition.event transition).read clock)
      M5Event.sequence trace.transitions) :
    ReadsAlike (M5Event.read clock) (normalizeM5 trace source) (normalizeM5 shuffled other) := by
  have hevents := sort_read M5Transition.event (M5Event.read clock) (fun _ => rfl) hties h.2
  unfold normalizeM5
  dsimp only
  rw [sequences_of_read hevents fun _ => rfl, summarize_congr hsource.arm hsource.drain, h.1]
  exact ⟨rfl, hevents, rfl⟩

theorem recordMarks_read (record : M6Event) :
    recordMarks selectedService (record.read clock compares) =
      recordMarks selectedService record := by
  cases hcomplete : record.complete with
  | true =>
    have hread : (record.read clock compares).complete = true := hcomplete
    unfold recordMarks
    rw [hcomplete, hread]
    rfl
  | false =>
    have hwhole : record.isWhole = false := by
      unfold M6Event.isWhole
      rw [hcomplete]
      rfl
    unfold recordMarks
    rw [why_read hwhole]
    rfl

theorem normalizeM6_shuffles {trace shuffled : M6Trace} {source other : LayerSource M6Trace}
    (hsource : source.Shuffles M6Trace.Shuffles other) (h : trace.Shuffles shuffled)
    (hties : TiesAgree (fun record => (M6Record.event record).read clock compares)
      M6Event.sequence trace.records) :
    ReadsAlike (M6Event.read clock compares) (normalizeM6 selectedService trace source)
      (normalizeM6 selectedService shuffled other) := by
  have hevents := sort_read M6Record.event (M6Event.read clock compares) (fun _ => rfl) hties h.2
  have hmarks (events : List M6Event) : events.flatMap (recordMarks selectedService) =
      (events.map (M6Event.read clock compares)).flatMap (recordMarks selectedService) := by
    rw [List.flatMap_map]
    exact congrArg (events.flatMap ·) (funext fun record => (recordMarks_read record).symm)
  unfold normalizeM6
  dsimp only
  rw [sequences_of_read hevents fun _ => rfl, summarize_congr hsource.arm hsource.drain, h.1]
  refine ⟨rfl, hevents, ?_⟩
  rw [hmarks, hevents, ← hmarks]

end Layers

theorem readOption_eq_ok {layer : Layer} {source : Option (LayerSource τ)}
    {found : Option (LayerSource τ × τ)} (h : readOption layer source = .ok found) :
    (source = none ∧ found = none) ∨
      ∃ one trace, source = some one ∧ one.trace = .ok trace ∧ found = some (one, trace) := by
  unfold readOption at h
  split at h
  · cases h
    exact .inl ⟨rfl, rfl⟩
  · next one =>
    obtain ⟨trace, htrace, hfound⟩ := bind_eq_ok.mp h
    cases hfound
    exact .inr ⟨one, trace, rfl, read_eq_ok.mp htrace, rfl⟩

structure Traced (input : JoinInput) (m6 : M6Trace) (m4 : Option (LayerSource M4Trace × M4Trace))
    (m5 : Option (LayerSource M5Trace × M5Trace)) : Prop where
  m6 : input.layers.m6Vtl1.trace = .ok m6
  m4 : readOption .m4Vtl0 input.layers.m4Vtl0 = .ok m4
  m5 : readOption .m5Hypervisor input.layers.m5Hypervisor = .ok m5

section Evidence
variable {m6 shuffled6 : M6Trace} {m4 shuffled4 : Option (LayerSource M4Trace × M4Trace)}
  {m5 shuffled5 : Option (LayerSource M5Trace × M5Trace)}

theorem compares_evidenceOf (h : Traced input m6 m4 m5) :
    (evidenceOf input m6 m4 m5).ctx.compares = input.compares := by
  unfold JoinInput.compares
  rcases readOption_eq_ok h.m4 with ⟨hsource, rfl⟩ | ⟨source, trace, hsource, htrace, rfl⟩
  · rw [hsource]
    rfl
  · rw [hsource]
    change (sortBySequence M4Event.sequence (trace.calls.map
      (M4Call.event input.selectedService input.secureCallKind))).any M4Event.selected =
        source.trace.toOption.any _
    rw [htrace, List.Perm.any_eq sortBySequence_perm, List.any_map]
    rfl

/-- Where ties read the same, the hits of one number are of the selected service together. -/
theorem selects_evidenceOf (h : Traced input m6 m4 m5) (hties : input.TiesAgree) :
    (evidenceOf input m6 m4 m5).ctx.Selects := by
  rcases readOption_eq_ok h.m4 with ⟨hsource, rfl⟩ | ⟨source, trace, hsource, htrace, rfl⟩
  · constructor
    · rfl
    · exact fun _ hevent => absurd hevent List.not_mem_nil
    · exact fun _ hevent => absurd hevent List.not_mem_nil
  · have hhit {event : M4Event}
        (hevent : event ∈ (evidenceOf input m6 (some (source, trace)) m5).ctx.hits) :
        ∃ call ∈ trace.calls,
          call.event input.selectedService input.secureCallKind = event := by
      have hmem : event ∈ sortBySequence M4Event.sequence (trace.calls.map
        (M4Call.event input.selectedService input.secureCallKind)) := hevent
      rw [mem_sortBySequence] at hmem
      exact List.mem_map.mp hmem
    constructor
    case candidates => rfl
    case selected =>
      intro event hevent hselected
      obtain ⟨call, -, rfl⟩ := hhit hevent
      unfold M4Call.event at hselected ⊢
      dsimp only at hselected ⊢
      rw [Bool.and_eq_true, beq_iff_eq, beq_iff_eq] at hselected
      rw [hselected.1, hselected.2]
      simp
    case ties =>
      intro event hevent other hother hsequence
      obtain ⟨call, hcall, rfl⟩ := hhit hevent
      obtain ⟨second, hsecond, rfl⟩ := hhit hother
      have hread := hties.m4 source trace hsource htrace call hcall second hsecond hsequence
      have hselected := congrArg M4Event.selected hread
      exact hselected

end Evidence

section From
variable {clock : Clock} {compares : Bool} {m6 other6 : LayerSummary × List M6Event × List Mark}
  {m4 other4 : Option (LayerSummary × List M4Event × List Mark)}
  {m5 other5 : Option (LayerSummary × List M5Event × List Mark)}

theorem entries_of_read {events others : List M6Event}
    (h : events.map (M6Event.read clock compares) = others.map (M6Event.read clock compares)) :
    (events.countP fun record => record.entry.isSome) =
      others.countP fun record => record.entry.isSome := by
  have hmap (list : List M6Event) : (list.countP fun record => record.entry.isSome) =
      (list.map (M6Event.read clock compares)).countP fun record => record.entry.isSome := by
    rw [List.countP_map]
    exact List.countP_congr fun record _ => iff_of_eq (congrArg (· = true) Option.isSome_map.symm)
  rw [hmap, h, ← hmap]

/-- Layers that read alike make the same evidence to the join. -/
theorem evidenceFrom_read (h6 : ReadsAlike (M6Event.read clock compares) m6 other6)
    (h4 : Option.Rel (ReadsAlike (M4Event.read clock)) m4 other4)
    (h5 : Option.Rel (ReadsAlike (M5Event.read clock)) m5 other5)
    (hone : (evidenceFrom clock m6 m4 m5).ctx.compares = compares)
    (htwo : (evidenceFrom clock other6 other4 other5).ctx.compares = compares) :
    (evidenceFrom clock m6 m4 m5).read = (evidenceFrom clock other6 other4 other5).read := by
  have hpairing : (m5.elim {} fun m5 => pairRoundTrips clock m5.2.1) =
      other5.elim {} fun m5 => pairRoundTrips clock m5.2.1 := by
    cases h5 with
    | none => rfl
    | some h5 =>
      dsimp only [Option.elim_some]
      rw [← pairRoundTrips_read, h5.events, pairRoundTrips_read]
  have hhits : m4.map (fun m4 => (m4.1, m4.2.1.map (M4Event.read clock))) =
      other4.map fun m4 => (m4.1, m4.2.1.map (M4Event.read clock)) := by
    cases h4 with
    | none => rfl
    | some h4 => rw [Option.map_some, Option.map_some, h4.summary, h4.events]
  have hcandidates : (m4.elim [] fun m4 => m4.2.1.filter M4Event.candidate).map
      (M4Event.read clock) = (other4.elim [] fun m4 => m4.2.1.filter M4Event.candidate).map
        (M4Event.read clock) := by
    have hfilter (events : List M4Event) : (events.filter M4Event.candidate).map
        (M4Event.read clock) = (events.map (M4Event.read clock)).filter M4Event.candidate := by
      rw [List.filter_map]
      rfl
    cases h4 with
    | none => rfl
    | some h4 =>
      dsimp only [Option.elim_some]
      rw [hfilter, h4.events, ← hfilter]
  have htrips (trips : List RoundTrip) : m5.map (fun m5 => (m5.1, trips)) =
      other5.map fun m5 => (m5.1, trips) := by
    cases h5 with
    | none => rfl
    | some h5 => rw [Option.map_some, Option.map_some, h5.summary]
  have hevents : m5.map (fun m5 => m5.2.1.map (M5Event.read clock)) =
      other5.map fun m5 => m5.2.1.map (M5Event.read clock) := by
    cases h5 with
    | none => rfl
    | some h5 => exact congrArg some h5.events
  have h4marks : m4.elim [] (fun m4 => m4.2.2) = other4.elim [] fun m4 => m4.2.2 := by
    cases h4 with
    | none => rfl
    | some h4 => exact h4.marks
  have h5marks : m5.elim [] (fun m5 => m5.2.2) = other5.elim [] fun m5 => m5.2.2 := by
    cases h5 with
    | none => rfl
    | some h5 => exact h5.marks
  unfold Evidence.read
  rw [hone, htwo]
  unfold Ctx.read evidenceFrom
  dsimp only
  simp only [Option.map_map, Function.comp_def]
  rw [hpairing, hhits, hcandidates, htrips, hevents, h4marks, h5marks, h6.summary, h6.marks,
    h6.events, entries_of_read h6.events]

end From

theorem read_shuffles {shuffles : τ → τ → Prop} {source shuffled : LayerSource τ}
    (h : source.Shuffles shuffles shuffled) (layer : Layer) :
    (∃ failure, read layer source = .error failure ∧ read layer shuffled = .error failure) ∨
      ∃ trace other, shuffles trace other ∧ read layer source = .ok trace ∧
        read layer shuffled = .ok other := by
  unfold read
  rcases h.trace with ⟨why, hsource, hother⟩ | ⟨trace, other, hsource, hother, hshuffles⟩
  · left
    rw [hsource, hother]
    exact ⟨_, rfl, rfl⟩
  · right
    rw [hsource, hother]
    exact ⟨trace, other, hshuffles, rfl, rfl⟩

theorem readOption_shuffles {shuffles : τ → τ → Prop} {source shuffled : Option (LayerSource τ)}
    (h : Option.Rel (LayerSource.Shuffles shuffles) source shuffled) (layer : Layer) :
    (∃ failure, readOption layer source = .error failure ∧
      readOption layer shuffled = .error failure) ∨
      ∃ found other, readOption layer source = .ok found ∧
        readOption layer shuffled = .ok other := by
  cases h with
  | none => exact .inr ⟨none, none, rfl, rfl⟩
  | some hshuffles =>
    unfold readOption
    dsimp only
    rcases read_shuffles hshuffles layer with
      ⟨failure, hone, htwo⟩ | ⟨trace, other, -, hone, htwo⟩
    · rw [hone, htwo]
      exact .inl ⟨failure, rfl, rfl⟩
    · rw [hone, htwo]
      exact .inr ⟨_, _, rfl, rfl⟩

/-- A layer that may not be part of the capture, normalized from either order. -/
theorem readOption_alike {β : Type} {read : β → β} {shuffles : τ → τ → Prop}
    {source shuffled : Option (LayerSource τ)} {layer : Layer}
    {found second : Option (LayerSource τ × τ)}
    (normalize : LayerSource τ × τ → LayerSummary × List β × List Mark)
    (h : Option.Rel (LayerSource.Shuffles shuffles) source shuffled)
    (hfound : readOption layer source = .ok found) (hsecond : readOption layer shuffled = .ok second)
    (hnormalize : ∀ one two trace other, source = some one → one.trace = .ok trace →
      one.Shuffles shuffles two → shuffles trace other →
        ReadsAlike read (normalize (one, trace)) (normalize (two, other))) :
    Option.Rel (ReadsAlike read) (found.map normalize) (second.map normalize) := by
  cases h with
  | none =>
    cases hfound
    cases hsecond
    exact .none
  | @some one two hshuffles =>
    rcases readOption_eq_ok hfound with ⟨hnone, -⟩ | ⟨_, trace, hone, htrace, rfl⟩
    · cases hnone
    rcases readOption_eq_ok hsecond with ⟨hnone, -⟩ | ⟨_, other, htwo, hother, rfl⟩
    · cases hnone
    cases hone
    cases htwo
    rcases hshuffles.trace with ⟨why, herror, -⟩ | ⟨_, _, hok, hsame, hrel⟩
    · rw [htrace] at herror
      cases herror
    · rw [htrace] at hok
      rw [hother] at hsame
      cases hok
      cases hsame
      exact .some (hnormalize one two trace other rfl htrace hshuffles hrel)

theorem evidenceOf_read {m6 shuffled6 : M6Trace}
    {m4 shuffled4 : Option (LayerSource M4Trace × M4Trace)}
    {m5 shuffled5 : Option (LayerSource M5Trace × M5Trace)} (h : input.Shuffles other)
    (hties : input.TiesAgree) (hone : Traced input m6 m4 m5)
    (htwo : Traced other shuffled6 shuffled4 shuffled5) (hcompares : other.compares = input.compares) :
    (evidenceOf input m6 m4 m5).read = (evidenceOf other shuffled6 shuffled4 shuffled5).read := by
  have hclock : other.hostClock = input.hostClock := by
    unfold JoinInput.hostClock
    rw [h.same]
  have hservice : other.selectedService = input.selectedService := by rw [h.same]
  have hkind : other.secureCallKind = input.secureCallKind := by rw [h.same]
  have h6 : ReadsAlike (M6Event.read input.hostClock input.compares)
      (normalizeM6 input.selectedService m6 input.layers.m6Vtl1)
      (normalizeM6 input.selectedService shuffled6 other.layers.m6Vtl1) := by
    rcases h.m6.trace with ⟨why, herror, -⟩ | ⟨_, _, hok, hsame, hrel⟩
    · rw [hone.m6] at herror
      cases herror
    · rw [hone.m6] at hok
      rw [htwo.m6] at hsame
      cases hok
      cases hsame
      exact normalizeM6_shuffles h.m6 hrel (hties.m6 m6 hone.m6)
  have h4 := readOption_alike
    (fun found => normalizeM4 input.selectedService input.secureCallKind found.2 found.1)
    h.m4 hone.m4 htwo.m4
    fun one two trace shuffled hsource htrace hshuffles hrel =>
      normalizeM4_shuffles hshuffles hrel (hties.m4 one trace hsource htrace)
  have h5 := readOption_alike (fun found => normalizeM5 found.2 found.1) h.m5 hone.m5 htwo.m5
    fun one two trace shuffled hsource htrace hshuffles hrel =>
      normalizeM5_shuffles hshuffles hrel (hties.m5 one trace hsource htrace)
  have hfirst := compares_evidenceOf hone
  have hsecond := compares_evidenceOf htwo
  unfold evidenceOf at hfirst hsecond ⊢
  rw [hclock, hservice, hkind] at hsecond ⊢
  exact evidenceFrom_read h6 h4 h5 hfirst (hsecond.trans hcompares)

theorem compares_shuffles (h : input.Shuffles other) : other.compares = input.compares := by
  have hservice : other.selectedService = input.selectedService := by rw [h.same]
  have hkind : other.secureCallKind = input.secureCallKind := by rw [h.same]
  have h4 := h.m4
  unfold JoinInput.compares
  rw [hservice, hkind]
  generalize input.layers.m4Vtl0 = source at h4
  generalize other.layers.m4Vtl0 = shuffled at h4
  cases h4 with
  | none => rfl
  | some h4 =>
    rw [Option.any_some, Option.any_some]
    rcases h4.trace with ⟨why, hone, htwo⟩ | ⟨trace, calls, hone, htwo, hrel⟩
    · rw [hone, htwo]
    · rw [hone, htwo]
      exact hrel.2.symm.any_eq

theorem TiesAgree.shuffles (hties : input.TiesAgree) (h : input.Shuffles other) :
    other.TiesAgree := by
  have hclock : other.hostClock = input.hostClock := by
    unfold JoinInput.hostClock
    rw [h.same]
  have hservice : other.selectedService = input.selectedService := by rw [h.same]
  have hkind : other.secureCallKind = input.secureCallKind := by rw [h.same]
  constructor
  case m4 =>
    rw [hclock, hservice, hkind]
    intro two shuffled htwo hshuffled
    have h4 := h.m4
    rw [htwo] at h4
    generalize hsource : input.layers.m4Vtl0 = source at h4
    cases h4 with
    | some hrel =>
      rcases hrel.trace with ⟨why, -, herror⟩ | ⟨trace, _, hok, hsame, hperm⟩
      · rw [hshuffled] at herror
        cases herror
      · rw [hshuffled] at hsame
        cases hsame
        exact (hties.m4 _ trace hsource hok).perm hperm.2
  case m5 =>
    rw [hclock]
    intro two shuffled htwo hshuffled
    have h5 := h.m5
    rw [htwo] at h5
    generalize hsource : input.layers.m5Hypervisor = source at h5
    cases h5 with
    | some hrel =>
      rcases hrel.trace with ⟨why, -, herror⟩ | ⟨trace, _, hok, hsame, hperm⟩
      · rw [hshuffled] at herror
        cases herror
      · rw [hshuffled] at hsame
        cases hsame
        exact (hties.m5 _ trace hsource hok).perm hperm.2
  case m6 =>
    rw [hclock, compares_shuffles h]
    intro shuffled hshuffled
    rcases h.m6.trace with ⟨why, -, herror⟩ | ⟨trace, _, hok, hsame, hperm⟩
    · rw [hshuffled] at herror
      cases herror
    · rw [hshuffled] at hsame
      cases hsame
      exact (hties.m6 trace hok).perm hperm.2

/-- What is refused is refused in every order, in the same words. -/
theorem prepare_shuffles (h : input.Shuffles other) :
    (∃ failure, prepare input = .error failure ∧ prepare other = .error failure) ∨
      ∃ one two, prepare input = .ok one ∧ prepare other = .ok two := by
  have hschema : other.schema = input.schema := by rw [h.same]
  have hidentity : other.identity = input.identity := by rw [h.same]
  have hservice : other.selectedService = input.selectedService := by rw [h.same]
  unfold prepare
  rw [hschema, hidentity, hservice]
  split
  · exact .inl ⟨_, rfl, rfl⟩
  cases input.identity.validate with
  | error message => exact .inl ⟨_, rfl, rfl⟩
  | ok _ =>
    rcases read_shuffles h.m6 .m6Vtl1 with
      ⟨failure, hread, hother⟩ | ⟨m6, shuffled6, hsame, hread, hother⟩
    · rw [hread, hother]
      exact .inl ⟨failure, rfl, rfl⟩
    have hselected : shuffled6.selectedService = m6.selectedService := by rw [hsame.1]
    rw [hread, hother]
    dsimp only [bind, Except.bind, Except.mapError]
    rw [hselected]
    split
    · exact .inl ⟨_, rfl, rfl⟩
    rcases readOption_shuffles h.m4 .m4Vtl0 with
      ⟨failure, hread, hother⟩ | ⟨m4, shuffled4, hread, hother⟩
    · rw [hread, hother]
      exact .inl ⟨failure, rfl, rfl⟩
    rw [hread, hother]
    dsimp only
    rcases readOption_shuffles h.m5 .m5Hypervisor with
      ⟨failure, hread, hother⟩ | ⟨m5, shuffled5, hread, hother⟩
    · rw [hread, hother]
      exact .inl ⟨failure, rfl, rfl⟩
    rw [hread, hother]
    exact .inr ⟨_, _, rfl, rfl⟩

theorem not_refused_of_ok {evidence : Evidence} (h : prepare input = .ok evidence) :
    ¬ input.Refused := by
  unfold prepare at h
  split at h
  · cases h
  next hschema =>
  simp only [bind_eq_ok, mapError_eq_ok] at h
  obtain ⟨_, hidentity, m6, hm6, h⟩ := h
  rw [read_eq_ok] at hm6
  split at h
  · cases h
  next hservice =>
  simp only [bind_eq_ok] at h
  obtain ⟨m4, hm4, m5, hm5, -⟩ := h
  intro hrefused
  cases hrefused with
  | schema hother => exact hschema hother
  | identity hinvalid => exact hinvalid hidentity
  | m6 hunread => exact hunread m6 hm6
  | service trace htrace hother =>
    rw [hm6] at htrace
    cases htrace
    exact hservice hother
  | m4 source hsource hunread =>
    rcases readOption_eq_ok hm4 with ⟨hnone, -⟩ | ⟨one, trace, hone, htrace, -⟩
    · rw [hsource] at hnone
      cases hnone
    · rw [hsource] at hone
      cases hone
      exact hunread trace htrace
  | m5 source hsource hunread =>
    rcases readOption_eq_ok hm5 with ⟨hnone, -⟩ | ⟨one, trace, hone, htrace, -⟩
    · rw [hsource] at hnone
      cases hnone
    · rw [hsource] at hone
      cases hone
      exact hunread trace htrace

theorem conclude_shuffles (h : input.Shuffles other) (evidence : Evidence) (pass : Pass) :
    conclude input evidence pass = conclude other evidence pass := by
  have hexpected : other.expectedSelectedCalls = input.expectedSelectedCalls := by rw [h.same]
  unfold conclude
  rw [hexpected]

/-- Where the join is refused, or reads the same of the events of one layer that repeat a sequence
number, it decides the same in whatever order the evidence arrives. -/
theorem join_arrival_free {input : JoinInput} (hfree : input.Refused ∨ input.TiesAgree) :
    input.ArrivalFree := by
  intro other h
  rcases prepare_shuffles h with ⟨failure, hone, htwo⟩ | ⟨one, two, hone, htwo⟩
  · unfold join
    rw [hone, htwo]
    rfl
  have hties := hfree.resolve_left (not_refused_of_ok hone)
  obtain ⟨m6, m4, m5, hm6, hm4, hm5, rfl⟩ := prepare_eq_ok hone
  obtain ⟨shuffled6, shuffled4, shuffled5, hm6', hm4', hm5', rfl⟩ := prepare_eq_ok htwo
  have htraced : Traced input m6 m4 m5 := ⟨hm6, hm4, hm5⟩
  have htraced' : Traced other shuffled6 shuffled4 shuffled5 := ⟨hm6', hm4', hm5'⟩
  have hread := evidenceOf_read h hties htraced htraced' (compares_shuffles h)
  have hidentity : other.identity = input.identity := by rw [h.same]
  rw [join_read hone (selects_evidenceOf htraced hties),
    join_read htwo (selects_evidenceOf htraced' (TiesAgree.shuffles hties h)), ← hread, hidentity]
  congr 1
  funext pass
  rw [conclude_shuffles h]

end Shuffled

section Example

def exampleCall (sequence : Nat) : M5Transition where
  sequence
  kind := "vtl_call"
  vpIndex := some 0
  sourceVtl := some 0
  targetVtl := some 1

def exampleReturn (sequence : Nat) : M5Transition where
  sequence
  kind := "vtl_return"
  vpIndex := some 0
  sourceVtl := some 1
  targetVtl := some 0

def transitionsAlone (transitions : List M5Transition) : JoinInput where
  schema := joinInputSchema
  identity := exampleIdentity
  clock := ⟨.intervalOnly, none, none, 0, [], []⟩
  selectedService := 5
  layers :=
    { m4Vtl0 := none
      m5Hypervisor := some { trace := .ok { transitions } }
      m6Vtl1 := { trace := .ok { selectedService := 5 } } }

theorem transitionsAlone_shuffles {transitions shuffled : List M5Transition}
    (h : transitions.Perm shuffled) :
    (transitionsAlone transitions).Shuffles (transitionsAlone shuffled) where
  same := rfl
  m4 := .none
  m5 := .some ⟨rfl, rfl, .inr ⟨_, _, rfl, rfl, rfl, h⟩⟩
  m6 := ⟨rfl, rfl, .inr ⟨_, _, rfl, rfl, rfl, List.Perm.refl _⟩⟩

/-- Two calls of one number that differ in a sample no tick is read from. -/
theorem join_arrival_free_swapped :
    let early := { exampleCall 1 with hostQpc := some ⟨5, 10⟩ }
    let late := { exampleCall 1 with hostQpc := some ⟨6, 10⟩ }
    join (transitionsAlone [early, late, exampleReturn 2]) =
      join (transitionsAlone [late, early, exampleReturn 2]) := by
  intro early late
  apply join_arrival_free (.inr _) _ (transitionsAlone_shuffles (List.Perm.swap _ _ _))
  constructor
  case m4 => exact fun _ _ h => absurd h (Option.some_ne_none _).symm
  case m5 =>
    rintro _ _ ⟨⟩ ⟨⟩
    unfold TiesAgree
    decide
  case m6 =>
    rintro _ ⟨⟩
    exact fun _ h => absurd h List.not_mem_nil

theorem tied_transitions_swapped :
    ¬ (transitionsAlone [exampleCall 1, exampleReturn 1]).ArrivalFree := by
  intro h
  have hswap := List.Perm.swap (exampleReturn 1) (exampleCall 1) []
  have hlisted := congrArg (fun joined => joined.toOption.map fun capture : JoinedCapture =>
    capture.unmatched.length) (h _ (transitionsAlone_shuffles hswap))
  unfold join at hlisted
  rw [prepare_example rfl rfl rfl rfl rfl rfl, prepare_example rfl rfl rfl rfl rfl rfl] at hlisted
  revert hlisted
  decide +kernel

end Example

end WindbgMcp.SkJoin
