import WindbgMcp.Library.Quota
import WindbgMcp.PoolTrace.Hits

/-! The recorder as a quota of completed allocations: the hit that fills it is the one
that stops the target. -/
namespace WindbgMcp.PoolTrace
open WindbgMcp.Library

namespace Recorder
variable (recorder : Recorder)

/-- The allocation that a hit completes, with everything about it read: a call that
returns nowhere here, or a return from a call that waits. -/
def completed (recorder : Recorder) : Hit → Option Allocation
  | .entry site thread arguments =>
    if recorder.returns site then none
    else arguments.map fun read => ⟨recorder.nextSequence, site, thread, read, none⟩
  | .returned site thread value =>
    (recorder.waiting (thread, site)).getLast?.bind fun call =>
      call.arguments.bind fun read =>
        value.map fun address => ⟨call.sequence, site, thread, read, some address⟩
  | .threadless _ => none

def ledger : Quota Allocation :=
  ⟨recorder.allocations, recorder.limit, recorder.dropped, recorder.full⟩

theorem record_ledger (allocation : Allocation) :
    (recorder.record allocation).1.ledger = (recorder.ledger.offer allocation).1 ∧
      ((recorder.record allocation).2 = .breakIn ↔
        (recorder.ledger.offer allocation).2 = true) := by
  obtain ⟨sites, pending, allocations, limit, nextSequence, dropped, unreadable, unpaired,
    full⟩ := recorder
  unfold record Quota.offer ledger
  cases full with
  | true => simp
  | false =>
    by_cases hfills : limit ≤ (allocations ++ [allocation]).length
    · simp only [Bool.false_eq_true, if_false, if_pos hfills, and_self]
    · simp only [Bool.false_eq_true, if_false, if_neg hfills, reduceCtorEq, and_self]

theorem ledger_hold (key : Key) (call : Pending) :
    (recorder.hold key call).ledger = recorder.ledger := by
  obtain ⟨roomy, hroomy, hhold⟩ := recorder.hold_cases key call
  rw [hhold]
  rcases hroomy with ⟨rfl, _⟩ | ⟨_, _, _, _, rfl⟩ <;> rfl

theorem ledger_entry (site : Nat) (thread : UInt64) (arguments : Option Arguments) :
    ∃ counted : Recorder, counted.ledger = recorder.ledger ∧
      recorder.entry site thread arguments =
        (recorder.completed (.entry site thread arguments)).elim (counted, .go) counted.record := by
  generalize hcounted : (if arguments.isNone then
      { recorder with
        nextSequence := recorder.nextSequence + 1, unreadable := recorder.unreadable + 1 }
    else { recorder with nextSequence := recorder.nextSequence + 1 }) = counted
  have hledger : counted.ledger = recorder.ledger := by
    rw [← hcounted]
    split <;> rfl
  have hreturns : counted.returns site = recorder.returns site := by
    rw [← hcounted]
    split <;> rfl
  have hentry : recorder.entry site thread arguments =
      if !counted.returns site then
        arguments.elim (counted, .go) fun read =>
          counted.record ⟨recorder.nextSequence, site, thread, read, none⟩
      else (counted.hold (thread, site) ⟨recorder.nextSequence, arguments⟩, .go) := by
    rw [← hcounted]
    cases arguments <;> rfl
  rw [hentry, hreturns]
  unfold completed
  dsimp only
  cases recorder.returns site with
  | false =>
    refine ⟨counted, hledger, ?_⟩
    cases arguments <;> rfl
  | true =>
    exact ⟨_, (counted.ledger_hold (thread, site) ⟨recorder.nextSequence, arguments⟩).trans
      hledger, rfl⟩

theorem ledger_returned (site : Nat) (thread : UInt64) (value : Option UInt64) :
    ∃ counted : Recorder, counted.ledger = recorder.ledger ∧
      recorder.returned site thread value =
        (recorder.completed (.returned site thread value)).elim (counted, .go) counted.record := by
  have hpending : (if value.isNone then { recorder with unreadable := recorder.unreadable + 1 }
      else recorder).pending = recorder.pending := by
    split <;> rfl
  have hledger : (if value.isNone then { recorder with unreadable := recorder.unreadable + 1 }
      else recorder).ledger = recorder.ledger := by
    split <;> rfl
  unfold returned completed waiting KeyedStacks.stack
  dsimp only
  generalize (if value.isNone then { recorder with unreadable := recorder.unreadable + 1 }
    else recorder) = counted at hpending hledger
  rw [hpending]
  cases recorder.pending.lookup (thread, site) with
  | none => exact ⟨counted, hledger, rfl⟩
  | some calls =>
    simp only [Option.getD_some]
    cases calls.getLast? with
    | none => exact ⟨counted, hledger, rfl⟩
    | some call =>
      refine ⟨{ counted with
        pending := recorder.pending.setStack (thread, site) calls.dropLast }, hledger, ?_⟩
      cases harguments : call.arguments <;> cases value <;> simp [harguments]

theorem ledger_threadless (site : Nat) :
    (recorder.threadless site).1.ledger = recorder.ledger ∧
      (recorder.threadless site).2 = .go := by
  unfold threadless
  dsimp only
  obtain ⟨pending, unpaired, heq, -⟩ := foldl_abandon
    (recorder.pending.keys.filter fun key => key.2 = site)
    { recorder with unreadable := recorder.unreadable + 1 }
  rw [heq]
  exact ⟨rfl, rfl⟩

theorem hit_ledger (hit : Hit) :
    match recorder.completed hit with
    | some allocation =>
      (recorder.step hit).ledger = (recorder.ledger.offer allocation).1 ∧
        ((recorder.hit hit).2 = .breakIn ↔ (recorder.ledger.offer allocation).2 = true)
    | none => (recorder.step hit).ledger = recorder.ledger ∧ (recorder.hit hit).2 = .go := by
  have hoffer : ∀ counted : Recorder, counted.ledger = recorder.ledger →
      recorder.hit hit = (recorder.completed hit).elim (counted, .go) counted.record →
      match recorder.completed hit with
      | some allocation =>
        (recorder.step hit).ledger = (recorder.ledger.offer allocation).1 ∧
          ((recorder.hit hit).2 = .breakIn ↔ (recorder.ledger.offer allocation).2 = true)
      | none => (recorder.step hit).ledger = recorder.ledger ∧ (recorder.hit hit).2 = .go := by
    intro counted hcounted hhit
    unfold step
    rw [hhit, ← hcounted]
    cases recorder.completed hit with
    | none => exact ⟨rfl, rfl⟩
    | some allocation => exact counted.record_ledger allocation
  cases hit with
  | entry site thread arguments =>
    obtain ⟨counted, hcounted, hentry⟩ := recorder.ledger_entry site thread arguments
    exact hoffer counted hcounted hentry
  | returned site thread value =>
    obtain ⟨counted, hcounted, hreturned⟩ := recorder.ledger_returned site thread value
    exact hoffer counted hcounted hreturned
  | threadless site => exact recorder.ledger_threadless site

end Recorder

def completions (sites : List Site) (limit : Nat) (hits : List Hit) : List Allocation :=
  (visits Recorder.step (Recorder.new sites limit) hits).filterMap fun visit =>
    visit.1.completed visit.2

def answers (sites : List Site) (limit : Nat) (hits : List Hit) : List BreakpointAction :=
  (visits Recorder.step (Recorder.new sites limit) hits).map fun visit =>
    (visit.1.hit visit.2).2

section Trace
variable (sites : List Site) (limit : Nat) (hits : List Hit) (hit : Hit)

theorem trace_concat : trace sites limit (hits ++ [hit]) = (trace sites limit hits).step hit :=
  run_concat _ hits hit

theorem completions_concat :
    completions sites limit (hits ++ [hit]) =
      completions sites limit hits ++ ((trace sites limit hits).completed hit).toList := by
  unfold completions
  rw [visits_append, List.filterMap_append]
  apply congrArg (completions sites limit hits ++ ·)
  change List.filterMap _ [(trace sites limit hits, hit)] = _
  rw [List.filterMap_cons]
  cases (trace sites limit hits).completed hit <;> rfl

theorem answers_concat :
    answers sites limit (hits ++ [hit]) =
      answers sites limit hits ++ [((trace sites limit hits).hit hit).2] := by
  unfold answers
  rw [visits_append, List.map_append]
  rfl

theorem new_limit_pos : 0 < (Recorder.new sites limit).limit := by
  unfold Recorder.new
  exact Nat.lt_of_lt_of_le Nat.zero_lt_one (Nat.le_max_left _ _)

theorem trace_offered :
    Quota.Offered (Recorder.new sites limit).limit (completions sites limit hits)
      (trace sites limit hits).ledger := by
  induction hits using List.reverseRecOn with
  | nil =>
    have hpos := new_limit_pos sites limit
    refine ⟨rfl, List.take_nil.symm, (Nat.zero_sub _).symm, ?_⟩
    simp only [completions, visits, List.filterMap_nil, List.length_nil, Nat.le_zero]
    constructor
    · intro hfull
      cases hfull
    · intro hzero
      omega
  | append_singleton hits hit ih =>
    have hhit := (trace sites limit hits).hit_ledger hit
    rw [trace_concat, completions_concat]
    cases hcompleted : (trace sites limit hits).completed hit with
    | none =>
      rw [hcompleted] at hhit
      simp only [Option.toList_none, List.append_nil]
      rw [hhit.1]
      exact ih
    | some allocation =>
      rw [hcompleted] at hhit
      rw [hhit.1]
      exact (ih.offer (new_limit_pos sites limit) allocation).1

theorem breaks_iff :
    ((trace sites limit hits).hit hit).2 = .breakIn ↔
      (completions sites limit hits).length < (Recorder.new sites limit).limit ∧
      (completions sites limit (hits ++ [hit])).length = (Recorder.new sites limit).limit := by
  have hhit := (trace sites limit hits).hit_ledger hit
  have hoffered := trace_offered sites limit hits
  rw [completions_concat]
  cases hcompleted : (trace sites limit hits).completed hit with
  | none =>
    rw [hcompleted] at hhit
    simp only [Option.toList_none, List.append_nil]
    rw [hhit.2]
    simp only [reduceCtorEq, false_iff]
    omega
  | some allocation =>
    rw [hcompleted] at hhit
    rw [hhit.2, (hoffered.offer (new_limit_pos sites limit) allocation).2]
    simp only [Option.toList_some, List.length_append, List.length_singleton]
    omega

theorem count_breaks :
    (answers sites limit hits).count .breakIn =
      if (Recorder.new sites limit).limit ≤ (completions sites limit hits).length then 1
      else 0 := by
  induction hits using List.reverseRecOn with
  | nil =>
    have hpos := new_limit_pos sites limit
    simp only [completions, visits, List.filterMap_nil, List.length_nil, Nat.le_zero]
    rw [if_neg (by omega)]
    rfl
  | append_singleton hits hit ih =>
    have hbreaks := breaks_iff sites limit hits hit
    have hgrows : (completions sites limit hits).length ≤
        (completions sites limit (hits ++ [hit])).length ∧
        (completions sites limit (hits ++ [hit])).length ≤
          (completions sites limit hits).length + 1 := by
      rw [completions_concat, List.length_append]
      cases (trace sites limit hits).completed hit <;> simp
    rw [answers_concat, List.count_append, ih]
    by_cases hbreak : ((trace sites limit hits).hit hit).2 = .breakIn
    · obtain ⟨hbefore, hafter⟩ := hbreaks.mp hbreak
      rw [hbreak, if_neg (by omega), if_pos (by omega)]
      rfl
    · have hzero : [((trace sites limit hits).hit hit).2].count .breakIn = 0 := by
        apply List.count_eq_zero.mpr
        intro hmem
        exact hbreak (List.mem_singleton.mp hmem).symm
      rw [hzero, Nat.add_zero]
      have hnot : ¬((completions sites limit hits).length < (Recorder.new sites limit).limit ∧
          (completions sites limit (hits ++ [hit])).length =
            (Recorder.new sites limit).limit) := fun h => hbreak (hbreaks.mpr h)
      split <;> split <;> omega

end Trace

end WindbgMcp.PoolTrace
