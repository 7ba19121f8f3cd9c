import WindbgMcp.SkJoin.Traces

/-! The hypervisor's transitions paired into round trips: no call and no return is lost or used
twice, and what stops the pairing is what the decisions take for a barrier. -/
namespace WindbgMcp.SkJoin
open WindbgMcp.Library WindbgMcp.Correlate

structure RoundTrip where
  callSequence : Nat
  returnSequence : Option Nat
  callTick : Option Nat
  returnTick : Option Nat
  deriving DecidableEq, Repr

structure Unmatched where
  m6Sequence : Option Nat := none
  stage : Option Stage := none
  event : Option EventId := none
  reason : String
  deriving DecidableEq, Repr

def M5Event.role (event : M5Event) : Option TransitionKind :=
  match event.kind, event.sourceVtl, event.targetVtl with
  | .vtlCall, some 0, some 1 => some .vtlCall
  | .vtlReturn, some 1, some 0 => some .vtlReturn
  | _, _, _ => none

structure Pairing where
  /-- The stack of round trips without a return, its top first. -/
  waiting : List RoundTrip := []
  trips : List RoundTrip := []
  vp : Option Nat := none
  marks : List Mark := []
  unmatched : List Unmatched := []
  deriving DecidableEq, Repr

def m5Mark (kind : MarkKind) (sequence : Nat) (detail : String) : Mark :=
  { layer := some .m5Hypervisor, kind, sequence := some sequence, detail }

def m5EventId (sequence : Nat) (stage : Stage) : EventId := ⟨.m5Hypervisor, sequence, stage⟩

def m5Unmatched (sequence : Nat) (stage : Stage) (reason : String) : Unmatched :=
  { stage := some stage, event := some (m5EventId sequence stage), reason }

namespace Pairing

def sameVp (vp current : Option Nat) : Option Nat × Bool :=
  match vp, current with
  | none, some current => (some current, true)
  | some first, some current => (vp, first == current)
  | _, _ => (vp, false)

/-- A barrier proves no return of the calls it finds open. -/
def bar (event : M5Event) (pairing : Pairing) : Pairing :=
  let closed := pairing.waiting.reverse
  { pairing with
    waiting := []
    trips := pairing.trips ++ closed
    marks := pairing.marks ++
      m5Mark .unexpectedTransition event.sequence
        ("transition " ++ toString event.sequence ++ " is " ++ event.kind.debug ++ " from VTL " ++
          debugOption toString event.sourceVtl ++ " to VTL " ++
          debugOption toString event.targetVtl ++ " on VP " ++
          debugOption toString event.vpIndex ++ ", so it is a pairing barrier") ::
      closed.map fun trip =>
        m5Mark .unmatchedCall trip.callSequence
          ("VTL call " ++ toString trip.callSequence ++
            " has no proved return before pairing barrier " ++ toString event.sequence)
    unmatched := pairing.unmatched ++ closed.map fun trip =>
      m5Unmatched trip.callSequence .m5VtlCall
        ("pairing barrier " ++ toString event.sequence ++
          " prevents proving this VTL call's return") }

def step (clock : Clock) (pairing : Pairing) (event : M5Event) : Pairing :=
  let same := sameVp pairing.vp event.vpIndex
  let pairing := { pairing with
    vp := same.1
    marks := pairing.marks ++ markIf (!same.2)
      (m5Mark .severalVps event.sequence
        ("transition " ++ toString event.sequence ++ " is on VP " ++
          debugOption toString event.vpIndex ++ " where the first was on VP " ++
          debugOption toString same.1)) }
  match if same.2 then event.role else none with
  | some .vtlCall =>
    { pairing with
      waiting :=
        { callSequence := event.sequence, returnSequence := none
          callTick := clock.tick event.hostQpc, returnTick := none } :: pairing.waiting }
  | some .vtlReturn =>
    match pairing.waiting with
    | trip :: waiting =>
      { pairing with
        waiting
        trips := pairing.trips ++
          [{ trip with
             returnSequence := some event.sequence, returnTick := clock.tick event.hostQpc }] }
    | [] =>
      { pairing with
        marks := pairing.marks ++
          [m5Mark .unmatchedReturn event.sequence
            ("VTL return " ++ toString event.sequence ++ " has no recorded VTL call before it")]
        unmatched := pairing.unmatched ++
          [m5Unmatched event.sequence .m5VtlReturn
            "a VTL return with no recorded VTL call before it"] }
  | _ => pairing.bar event

def finish (pairing : Pairing) : Pairing :=
  let closed := pairing.waiting.reverse
  { pairing with
    waiting := []
    trips := sortBySequence RoundTrip.callSequence (pairing.trips ++ closed)
    marks := pairing.marks ++ closed.map fun trip =>
      m5Mark .unmatchedCall trip.callSequence
        ("VTL call " ++ toString trip.callSequence ++ " has no recorded VTL return after it")
    unmatched := pairing.unmatched ++ closed.map fun trip =>
      m5Unmatched trip.callSequence .m5VtlCall
        "a VTL call with no recorded VTL return after it" }

end Pairing

def pairRoundTrips (clock : Clock) (events : List M5Event) : Pairing :=
  (events.foldl (Pairing.step clock) {}).finish

def M5Event.isPaired (event : M5Event) : Bool :=
  match event.kind, event.sourceVtl, event.targetVtl with
  | .vtlCall, some 0, some 1 => true
  | .vtlReturn, some 1, some 0 => true
  | _, _, _ => false

/-- Whether a transition is off the first VP, or no call or return between the two VTLs. -/
def barrierFrom (vp : Option Nat) : List M5Event → Bool
  | [] => false
  | event :: events =>
    match vp, event.vpIndex with
    | none, some current => !event.isPaired || barrierFrom (some current) events
    | some first, some current =>
      !(first == current) || !event.isPaired || barrierFrom vp events
    | _, _ => true

def m5HasPairingBarrier (events : List M5Event) : Bool := barrierFrom none events

def firstVp (events : List M5Event) : Option Nat := events.findSome? M5Event.vpIndex

/-- A transition on the first VP that is a call, or a return, between the two VTLs. -/
def M5Event.isClassified (vp : Option Nat) (kind : TransitionKind) (event : M5Event) : Bool :=
  event.vpIndex.isSome && event.vpIndex == vp && event.role == some kind

def Unmatched.returned (unmatched : Unmatched) : Option Nat :=
  if unmatched.stage = some .m5VtlReturn then unmatched.event.map EventId.sequence else none

/-- The calls and the returns of the transitions up to a point, in round trips and in lists. -/
structure Pairing.Accounts (pairing : Pairing) (vp : Option Nat) (before : List M5Event) :
    Prop where
  calls : ((pairing.trips ++ pairing.waiting).map RoundTrip.callSequence).Perm
    ((before.filter (M5Event.isClassified vp .vtlCall)).map M5Event.sequence)
  returns : (pairing.trips.filterMap RoundTrip.returnSequence ++
      pairing.unmatched.filterMap Unmatched.returned).Perm
    ((before.filter (M5Event.isClassified vp .vtlReturn)).map M5Event.sequence)
  waiting : ∀ trip ∈ pairing.waiting, trip.returnSequence = none ∧
    ∃ call ∈ before, call.isClassified vp .vtlCall = true ∧ call.sequence = trip.callSequence
  ordered : ∀ trip ∈ pairing.trips, ∀ sequence, trip.returnSequence = some sequence →
    ∃ front back, before = front ++ back ∧
      (∃ call ∈ front, call.isClassified vp .vtlCall = true ∧
        call.sequence = trip.callSequence) ∧
      ∃ event ∈ back, event.isClassified vp .vtlReturn = true ∧ event.sequence = sequence

section Steps
variable {clock : Clock} {pairing : Pairing} {vp : Option Nat} {before : List M5Event}
  {event : M5Event}

theorem isClassified_iff {kind : TransitionKind} : event.isClassified vp kind = true ↔
    event.vpIndex.isSome = true ∧ event.vpIndex = vp ∧ event.role = some kind := by
  unfold M5Event.isClassified
  rw [Bool.and_eq_true, Bool.and_eq_true, beq_iff_eq, beq_iff_eq, and_assoc]

theorem firstVp_append (before after : List M5Event) :
    firstVp (before ++ after) = (firstVp before).or (firstVp after) := by
  unfold firstVp
  exact List.findSome?_append

theorem sameVp_eq (before rest : List M5Event) (event : M5Event) :
    Pairing.sameVp (firstVp before) event.vpIndex =
      (firstVp (before ++ [event]), event.vpIndex.isSome &&
        event.vpIndex == firstVp (before ++ event :: rest)) := by
  rw [firstVp_append, firstVp_append]
  unfold firstVp
  rw [List.findSome?_cons, List.findSome?_cons]
  cases List.findSome? M5Event.vpIndex before with
  | none =>
    cases event.vpIndex with
    | none => rfl
    | some current => simp [Pairing.sameVp]
  | some first =>
    cases event.vpIndex with
    | none => rfl
    | some current => simp [Pairing.sameVp, eq_comm]

theorem role_cases (event : M5Event) :
    event.role = some .vtlCall ∨ event.role = some .vtlReturn ∨ event.role = none := by
  unfold M5Event.role
  split <;> simp

theorem filter_classified_concat (vp : Option Nat) (kind : TransitionKind)
    (before : List M5Event) (event : M5Event) :
    ((before ++ [event]).filter (M5Event.isClassified vp kind)).map M5Event.sequence =
      (before.filter (M5Event.isClassified vp kind)).map M5Event.sequence ++
        if event.isClassified vp kind then [event.sequence] else [] := by
  rw [List.filter_append, List.map_append, List.filter_singleton]
  congr 1
  cases event.isClassified vp kind <;> rfl

end Steps

namespace Pairing
section Steps
variable {clock : Clock} {pairing : Pairing} {vp : Option Nat} {before rest : List M5Event}
  {event : M5Event}

theorem step_call (hvp : pairing.vp = firstVp before)
    (h : event.isClassified (firstVp (before ++ event :: rest)) .vtlCall = true) :
    pairing.step clock event =
      { pairing with
        vp := firstVp (before ++ [event])
        waiting := ⟨event.sequence, none, clock.tick event.hostQpc, none⟩ :: pairing.waiting } := by
  obtain ⟨hsome, hsame, hrole⟩ := isClassified_iff.mp h
  unfold step
  rw [hvp, sameVp_eq before rest event, hrole, hsome, beq_iff_eq.mpr hsame]
  simp [markIf]

theorem step_return (hvp : pairing.vp = firstVp before)
    (h : event.isClassified (firstVp (before ++ event :: rest)) .vtlReturn = true) :
    pairing.step clock event =
      match pairing.waiting with
      | trip :: waiting =>
        { pairing with
          vp := firstVp (before ++ [event])
          waiting
          trips := pairing.trips ++
            [{ trip with
               returnSequence := some event.sequence, returnTick := clock.tick event.hostQpc }] }
      | [] =>
        { pairing with
          vp := firstVp (before ++ [event])
          marks := pairing.marks ++
            [m5Mark .unmatchedReturn event.sequence
              ("VTL return " ++ toString event.sequence ++
                " has no recorded VTL call before it")]
          unmatched := pairing.unmatched ++
            [m5Unmatched event.sequence .m5VtlReturn
              "a VTL return with no recorded VTL call before it"] } := by
  obtain ⟨hsome, hsame, hrole⟩ := isClassified_iff.mp h
  unfold step
  rw [hvp, sameVp_eq before rest event, hrole, hsome, beq_iff_eq.mpr hsame]
  cases pairing.waiting <;> simp [markIf]

theorem step_barrier (hvp : pairing.vp = firstVp before)
    (hcall : event.isClassified (firstVp (before ++ event :: rest)) .vtlCall = false)
    (hreturn : event.isClassified (firstVp (before ++ event :: rest)) .vtlReturn = false) :
    ∃ marks, pairing.step clock event =
      bar event { pairing with
        vp := firstVp (before ++ [event]), marks := pairing.marks ++ marks } := by
  have hrole : (if (event.vpIndex.isSome &&
      event.vpIndex == firstVp (before ++ event :: rest)) = true then event.role else none) =
        none := by
    unfold M5Event.isClassified at hcall hreturn
    split
    · next hsame =>
      rw [hsame, Bool.true_and, beq_eq_false_iff_ne] at hcall hreturn
      obtain hrole | hrole | hrole := role_cases event
      · exact absurd hrole hcall
      · exact absurd hrole hreturn
      · exact hrole
    · rfl
  unfold step
  rw [hvp, sameVp_eq before rest event]
  simp only [hrole]
  exact ⟨_, rfl⟩

theorem returned_closed (closed : List RoundTrip) (reason : RoundTrip → String) :
    (closed.map fun trip => m5Unmatched trip.callSequence .m5VtlCall
      (reason trip)).filterMap Unmatched.returned = [] := by
  rw [List.filterMap_map, List.filterMap_eq_nil_iff]
  exact fun _ _ => rfl

theorem bar_unmatched (event : M5Event) (pairing : Pairing) :
    (pairing.bar event).unmatched.filterMap Unmatched.returned =
      pairing.unmatched.filterMap Unmatched.returned := by
  unfold bar
  dsimp only
  rw [List.filterMap_append, returned_closed, List.append_nil]

theorem not_return_of_call (h : event.isClassified vp .vtlCall = true) :
    event.isClassified vp .vtlReturn = false := by
  rw [Bool.eq_false_iff]
  intro hreturn
  have hrole := (isClassified_iff.mp h).2.2.symm.trans (isClassified_iff.mp hreturn).2.2
  cases hrole

theorem not_call_of_return (h : event.isClassified vp .vtlReturn = true) :
    event.isClassified vp .vtlCall = false := by
  rw [Bool.eq_false_iff]
  intro hcall
  rw [not_return_of_call hcall] at h
  cases h

theorem Accounts.ordered_concat (h : pairing.Accounts vp before) (event : M5Event) :
    ∀ trip ∈ pairing.trips, ∀ sequence, trip.returnSequence = some sequence →
      ∃ front back, before ++ [event] = front ++ back ∧
        (∃ call ∈ front, call.isClassified vp .vtlCall = true ∧
          call.sequence = trip.callSequence) ∧
        ∃ event ∈ back, event.isClassified vp .vtlReturn = true ∧ event.sequence = sequence := by
  intro trip htrip sequence hsequence
  obtain ⟨front, back, hbefore, hcall, returned, hreturned, hclassified⟩ :=
    h.ordered trip htrip sequence hsequence
  refine ⟨front, back ++ [event], ?_, hcall, returned, ?_, hclassified⟩
  · rw [hbefore, List.append_assoc]
  · exact List.mem_append_left _ hreturned

theorem Accounts.waiting_concat (h : pairing.Accounts vp before) (event : M5Event) :
    ∀ trip ∈ pairing.waiting, trip.returnSequence = none ∧
      ∃ call ∈ before ++ [event], call.isClassified vp .vtlCall = true ∧
        call.sequence = trip.callSequence := by
  intro trip htrip
  obtain ⟨hnone, call, hcall, hclassified⟩ := h.waiting trip htrip
  exact ⟨hnone, call, List.mem_append_left _ hcall, hclassified⟩

theorem Accounts.step_call (h : pairing.Accounts vp before)
    (hcall : event.isClassified vp .vtlCall = true) (current : Option Nat) :
    Accounts
      { pairing with
        vp := current
        waiting := ⟨event.sequence, none, clock.tick event.hostQpc, none⟩ :: pairing.waiting } vp
      (before ++ [event]) := by
  constructor
  case calls =>
    rw [filter_classified_concat, hcall, if_pos rfl]
    refine List.Perm.trans ?_ (h.calls.append_right [event.sequence])
    rw [List.map_append, List.map_append, List.map_cons, List.append_assoc]
    exact (List.perm_append_singleton _ _).symm.append_left _
  case returns =>
    rw [filter_classified_concat, not_return_of_call hcall, if_neg Bool.false_ne_true,
      List.append_nil]
    exact h.returns
  case waiting =>
    intro trip htrip
    rcases List.mem_cons.mp htrip with rfl | hearlier
    · exact ⟨rfl, event, List.mem_append_right _ (List.mem_singleton_self _), hcall, rfl⟩
    · exact h.waiting_concat event trip hearlier
  case ordered => exact h.ordered_concat event

theorem Accounts.step_paired (h : pairing.Accounts vp before)
    (hreturn : event.isClassified vp .vtlReturn = true) {trip : RoundTrip}
    {waiting : List RoundTrip} (hwaiting : pairing.waiting = trip :: waiting)
    (current tick : Option Nat) :
    Accounts
      { pairing with
        vp := current, waiting
        trips := pairing.trips ++
          [{ trip with returnSequence := some event.sequence, returnTick := tick }] } vp
      (before ++ [event]) := by
  have htrip := h.waiting trip (hwaiting ▸ List.mem_cons_self)
  constructor
  case calls =>
    rw [filter_classified_concat, not_call_of_return hreturn, if_neg Bool.false_ne_true,
      List.append_nil]
    refine List.Perm.trans ?_ h.calls
    rw [hwaiting]
    simp
  case returns =>
    rw [filter_classified_concat, hreturn, if_pos rfl]
    refine List.Perm.trans ?_ (h.returns.append_right [event.sequence])
    rw [List.filterMap_append, List.append_assoc, List.append_assoc]
    exact List.perm_append_comm.append_left _
  case waiting =>
    intro other hother
    exact h.waiting_concat event other (hwaiting ▸ List.mem_cons_of_mem _ hother)
  case ordered =>
    intro other hother sequence hsequence
    rcases List.mem_append.mp hother with hearlier | hpaired
    · exact h.ordered_concat event other hearlier sequence hsequence
    · obtain rfl := List.mem_singleton.mp hpaired
      obtain rfl := Option.some.inj hsequence
      obtain ⟨-, call, hcall, hclassified⟩ := htrip
      exact ⟨before, [event], rfl, ⟨call, hcall, hclassified⟩, event,
        List.mem_singleton_self _, hreturn, rfl⟩

theorem Accounts.step_alone (h : pairing.Accounts vp before)
    (hreturn : event.isClassified vp .vtlReturn = true) (current : Option Nat)
    (marks : List Mark) (reason : String) :
    Accounts
      { pairing with
        vp := current, marks
        unmatched := pairing.unmatched ++
          [m5Unmatched event.sequence .m5VtlReturn reason] } vp (before ++ [event]) := by
  constructor
  case calls =>
    rw [filter_classified_concat, not_call_of_return hreturn, if_neg Bool.false_ne_true,
      List.append_nil]
    exact h.calls
  case returns =>
    rw [filter_classified_concat, hreturn, if_pos rfl]
    refine List.Perm.trans ?_ (h.returns.append_right [event.sequence])
    rw [List.filterMap_append, ← List.append_assoc]
    exact List.Perm.refl _
  case waiting => exact h.waiting_concat event
  case ordered => exact h.ordered_concat event

theorem Accounts.closed (h : pairing.Accounts vp before) :
    pairing.waiting.reverse.filterMap RoundTrip.returnSequence = [] := by
  rw [List.filterMap_eq_nil_iff]
  exact fun trip htrip => (h.waiting trip (List.mem_reverse.mp htrip)).1

theorem Accounts.step_barred (h : pairing.Accounts vp before)
    (hcall : event.isClassified vp .vtlCall = false)
    (hreturn : event.isClassified vp .vtlReturn = false) (current : Option Nat)
    (marks : List Mark) :
    (bar event { pairing with vp := current, marks }).Accounts vp (before ++ [event]) := by
  constructor
  case calls =>
    rw [filter_classified_concat, hcall, if_neg Bool.false_ne_true, List.append_nil]
    refine List.Perm.trans ?_ h.calls
    apply List.Perm.map
    unfold bar
    rw [List.append_nil]
    exact (List.reverse_perm _).append_left _
  case returns =>
    rw [filter_classified_concat, hreturn, if_neg Bool.false_ne_true, List.append_nil,
      bar_unmatched]
    unfold bar
    rw [List.filterMap_append, h.closed, List.append_nil]
    exact h.returns
  case waiting => exact nofun
  case ordered =>
    intro trip htrip sequence hsequence
    rcases List.mem_append.mp htrip with hearlier | hclosed
    · exact h.ordered_concat event trip hearlier sequence hsequence
    · have hnone := (h.waiting trip (List.mem_reverse.mp hclosed)).1
      rw [hsequence] at hnone
      cases hnone

theorem Accounts.step (h : pairing.Accounts vp before) (hvp : pairing.vp = firstVp before)
    (hfirst : firstVp (before ++ event :: rest) = vp) :
    (pairing.step clock event).Accounts vp (before ++ [event]) ∧
      (pairing.step clock event).vp = firstVp (before ++ [event]) := by
  subst hfirst
  by_cases hcall : event.isClassified (firstVp (before ++ event :: rest)) .vtlCall = true
  · rw [Pairing.step_call hvp hcall]
    exact ⟨h.step_call hcall _, rfl⟩
  by_cases hreturn : event.isClassified (firstVp (before ++ event :: rest)) .vtlReturn = true
  · rw [step_return hvp hreturn]
    cases hwaiting : pairing.waiting with
    | cons trip waiting => exact ⟨h.step_paired hreturn hwaiting _ _, rfl⟩
    | nil =>
      have halone := h.step_alone hreturn (firstVp (before ++ [event]))
        (pairing.marks ++ [m5Mark .unmatchedReturn event.sequence
          ("VTL return " ++ toString event.sequence ++ " has no recorded VTL call before it")])
        "a VTL return with no recorded VTL call before it"
      rw [hwaiting] at halone
      exact ⟨halone, rfl⟩
  · rw [Bool.not_eq_true] at hcall hreturn
    obtain ⟨marks, hstep⟩ := @step_barrier clock _ _ _ _ hvp hcall hreturn
    rw [hstep]
    exact ⟨h.step_barred hcall hreturn _ _, rfl⟩

theorem accounts_empty (vp : Option Nat) : ({} : Pairing).Accounts vp [] where
  calls := List.Perm.refl _
  returns := List.Perm.refl _
  waiting := nofun
  ordered := nofun

theorem Accounts.run (clock : Clock) {events : List M5Event} :
    ∀ {pairing : Pairing} {before : List M5Event}, pairing.Accounts vp before →
      pairing.vp = firstVp before → firstVp (before ++ events) = vp →
        (events.foldl (Pairing.step clock) pairing).Accounts vp (before ++ events) := by
  induction events with
  | nil =>
    intro pairing before h _ _
    rw [List.append_nil]
    exact h
  | cons event events ih =>
    intro pairing before h hvp hfirst
    obtain ⟨hstep, hcurrent⟩ := @Accounts.step clock _ _ _ events event h hvp hfirst
    rw [List.append_cons] at hfirst ⊢
    exact ih hstep hcurrent hfirst

theorem Accounts.finish (h : pairing.Accounts vp before) :
    pairing.finish.Accounts vp before := by
  constructor
  case calls =>
    refine List.Perm.trans (List.Perm.map _ ?_) h.calls
    unfold Pairing.finish
    rw [List.append_nil]
    exact sortBySequence_perm.trans ((List.reverse_perm _).append_left _)
  case returns =>
    refine List.Perm.trans ?_ h.returns
    unfold Pairing.finish
    dsimp only
    apply List.Perm.append
    · refine (sortBySequence_perm.filterMap _).trans ?_
      rw [List.filterMap_append, h.closed, List.append_nil]
    · rw [List.filterMap_append, returned_closed, List.append_nil]
  case waiting => exact nofun
  case ordered =>
    intro trip htrip sequence hsequence
    unfold Pairing.finish at htrip
    rcases List.mem_append.mp (mem_sortBySequence.mp htrip) with hearlier | hclosed
    · exact h.ordered trip hearlier sequence hsequence
    · have hnone := (h.waiting trip (List.mem_reverse.mp hclosed)).1
      rw [hsequence] at hnone
      cases hnone

end Steps
end Pairing

/-- Every call is in exactly one round trip and every return in exactly one or listed, and a
return behind its call. -/
theorem pairRoundTrips_accounts (clock : Clock) (events : List M5Event) :
    (pairRoundTrips clock events).Accounts (firstVp events) events := by
  apply Pairing.Accounts.finish
  exact @Pairing.Accounts.run _ clock events {} [] (Pairing.accounts_empty _) rfl rfl

section Barriers
variable {clock : Clock} {pairing : Pairing}

def Pairing.Barred (pairing : Pairing) : Prop :=
  ∃ mark ∈ pairing.marks, mark.kind = .unexpectedTransition

def Pairing.bars (vp : Option Nat) (event : M5Event) : Bool :=
  !(sameVp vp event.vpIndex).2 || event.role.isNone

theorem isPaired_eq (event : M5Event) : event.isPaired = !event.role.isNone := by
  unfold M5Event.isPaired M5Event.role
  split <;> simp_all

theorem barrierFrom_cons (vp : Option Nat) (event : M5Event) (events : List M5Event) :
    barrierFrom vp (event :: events) =
      (Pairing.bars vp event || barrierFrom (Pairing.sameVp vp event.vpIndex).1 events) := by
  unfold Pairing.bars Pairing.sameVp
  cases vp <;> cases hcurrent : event.vpIndex <;>
    simp [barrierFrom, hcurrent, isPaired_eq, Bool.or_assoc]

theorem barred_mono {after : Pairing} {marks : List Mark} (h : pairing.Barred)
    (hmarks : after.marks = pairing.marks ++ marks) : after.Barred := by
  obtain ⟨mark, hmark, hkind⟩ := h
  exact ⟨mark, hmarks ▸ List.mem_append_left _ hmark, hkind⟩

theorem barred_iff_of_marks {after : Pairing} {marks : List Mark}
    (hmarks : after.marks = pairing.marks ++ marks)
    (hkinds : ∀ mark ∈ marks, mark.kind ≠ .unexpectedTransition) :
    after.Barred ↔ pairing.Barred := by
  constructor
  · rintro ⟨mark, hmark, hkind⟩
    rcases List.mem_append.mp (hmarks ▸ hmark) with hearlier | hnew
    · exact ⟨mark, hearlier, hkind⟩
    · exact absurd hkind (hkinds mark hnew)
  · exact fun h => barred_mono h hmarks

theorem step_vp (event : M5Event) :
    (pairing.step clock event).vp = (Pairing.sameVp pairing.vp event.vpIndex).1 := by
  unfold Pairing.step
  dsimp only
  split
  · rfl
  · split <;> rfl
  · rfl

theorem step_barred_iff (event : M5Event) :
    (pairing.step clock event).Barred ↔
      pairing.Barred ∨ Pairing.bars pairing.vp event = true := by
  unfold Pairing.bars Pairing.step
  dsimp only
  cases hsame : (Pairing.sameVp pairing.vp event.vpIndex).2 with
  | false =>
    simp only [Bool.false_eq_true, if_false, Bool.not_false, Bool.true_or, or_true, iff_true]
    exact ⟨_, List.mem_append_right _ List.mem_cons_self, rfl⟩
  | true =>
    simp only [if_true, Bool.not_true, Bool.false_or, markIf, Bool.false_eq_true, if_false,
      List.append_nil]
    obtain hrole | hrole | hrole := role_cases event
    · rw [hrole]
      simp only [Option.isNone_some, Bool.false_eq_true, or_false]
      exact barred_iff_of_marks (List.append_nil _).symm (List.forall_mem_nil _)
    · rw [hrole]
      simp only [Option.isNone_some, Bool.false_eq_true, or_false]
      cases pairing.waiting with
      | cons trip waiting =>
        exact barred_iff_of_marks (List.append_nil _).symm (List.forall_mem_nil _)
      | nil =>
        apply barred_iff_of_marks rfl
        intro mark hmark
        rw [List.mem_singleton.mp hmark]
        exact nofun
    · rw [hrole]
      simp only [Option.isNone_none, or_true, iff_true]
      exact ⟨_, List.mem_append_right _ List.mem_cons_self, rfl⟩

theorem run_barred_iff (clock : Clock) {events : List M5Event} : ∀ {pairing : Pairing},
    (events.foldl (Pairing.step clock) pairing).Barred ↔
      pairing.Barred ∨ barrierFrom pairing.vp events = true := by
  induction events with
  | nil => exact fun {pairing} => (or_iff_left Bool.false_ne_true).symm
  | cons event events ih =>
    intro pairing
    rw [List.foldl_cons, ih, step_barred_iff, step_vp, barrierFrom_cons, Bool.or_eq_true, or_assoc]

theorem pairRoundTrips_barred_iff (clock : Clock) (events : List M5Event) :
    (pairRoundTrips clock events).Barred ↔ m5HasPairingBarrier events = true := by
  have hfinish (pairing : Pairing) : pairing.finish.Barred ↔ pairing.Barred := by
    apply barred_iff_of_marks rfl
    intro mark hmark
    obtain ⟨trip, -, rfl⟩ := List.mem_map.mp hmark
    exact nofun
  unfold pairRoundTrips m5HasPairingBarrier
  rw [hfinish, run_barred_iff]
  constructor
  · rintro (⟨mark, hmark, -⟩ | hbarrier)
    · cases hmark
    · exact hbarrier
  · exact Or.inr

end Barriers

end WindbgMcp.SkJoin
