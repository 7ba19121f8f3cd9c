import WindbgMcp.LogBridge.Ring
import Mathlib.Algebra.Order.Ring.Nat
import Mathlib.Data.List.Induction
import Mathlib.Data.List.Perm.Basic

/-! The worker's side of the log bridge: a bounded queue that counts the records it refuses,
and where each of them is counted.  Every operation is one acquisition of `HANDOFF`, or one
receive on the queue. -/
namespace WindbgMcp.LogBridge

open Library

def saturatingAdd (left right : Nat) : Nat := min (left + right) 4294967295

structure Handoff where
  capacity : Nat
  queue : List (Entry × Nat)
  /-- Records dropped since the last one that got through. -/
  dropped : Nat
  queued : Nat

namespace Handoff

def enqueue (handoff : Handoff) (hasQueue : Bool) (entry : Entry) : Handoff × Bool :=
  let carried := handoff.dropped
  if hasQueue && handoff.queue.length < handoff.capacity then
    ({ handoff with
        queue := handoff.queue ++ [(entry, carried)]
        dropped := 0
        queued := (handoff.queued + 1) % 0x10000000000000000 }, true)
  else
    ({ handoff with dropped := (0 + saturatingAdd carried 1) % 0x100000000 }, false)

def takeUnreportedDrops (handoff : Handoff) : Handoff × Nat :=
  ({ handoff with dropped := 0 }, handoff.dropped)

def receive (handoff : Handoff) : Handoff × Option (Entry × Nat) :=
  ({ handoff with queue := handoff.queue.tail }, handoff.queue.head?)

end Handoff

inductive Operation
  | enqueue (hasQueue : Bool) (entry : Entry)
  | takeUnreportedDrops
  | receive

inductive Outcome
  | accepted (entry : Entry) (carried : Nat)
  | refused (entry : Entry)
  | taken (count : Nat)
  | received (entry : Entry) (carried : Nat)
  | waiting

/-- The handoff and what came of each operation, the latest first. -/
structure WorkerLog where
  handoff : Handoff
  history : List Outcome

namespace WorkerLog

def new (capacity : Nat) : WorkerLog := ⟨⟨capacity, [], 0, 0⟩, []⟩

def step (log : WorkerLog) : Operation → WorkerLog
  | .enqueue hasQueue entry =>
    let (handoff, queued) := log.handoff.enqueue hasQueue entry
    ⟨handoff,
      (if queued then .accepted entry log.handoff.dropped else .refused entry) :: log.history⟩
  | .takeUnreportedDrops =>
    let (handoff, count) := log.handoff.takeUnreportedDrops
    ⟨handoff, .taken count :: log.history⟩
  | .receive =>
    match log.handoff.receive with
    | (handoff, some (entry, carried)) => ⟨handoff, .received entry carried :: log.history⟩
    | (handoff, none) => ⟨handoff, .waiting :: log.history⟩

end WorkerLog

/-! ### Where each record is counted -/

def offered : List Outcome → List Entry
  | [] => []
  | .accepted entry _ :: earlier | .refused entry :: earlier => entry :: offered earlier
  | _ :: earlier => offered earlier

def accepted : List Outcome → List (Entry × Nat)
  | [] => []
  | .accepted entry carried :: earlier => (entry, carried) :: accepted earlier
  | _ :: earlier => accepted earlier

def received : List Outcome → List (Entry × Nat)
  | [] => []
  | .received entry carried :: earlier => (entry, carried) :: received earlier
  | _ :: earlier => received earlier

def taken : List Outcome → List Nat
  | [] => []
  | .taken count :: earlier => count :: taken earlier
  | _ :: earlier => taken earlier

def unreported : List Outcome → List Entry
  | [] => []
  | .refused entry :: earlier => entry :: unreported earlier
  | .accepted _ _ :: _ | .taken _ :: _ => []
  | .received _ _ :: earlier | .waiting :: earlier => unreported earlier

def accounts : List Outcome → List (Nat × List Entry)
  | [] => []
  | .accepted _ count :: earlier | .taken count :: earlier =>
    (count, unreported earlier) :: accounts earlier
  | _ :: earlier => accounts earlier

def refusedSince : List Outcome → Nat
  | [] | .accepted _ _ :: _ => 0
  | .refused _ :: earlier => refusedSince earlier + 1
  | _ :: earlier => refusedSince earlier

/-- How many records `take_unreported_drops` has answered with since one got through. -/
def takenSince : List Outcome → Nat
  | [] | .accepted _ _ :: _ => 0
  | .taken count :: earlier => takenSince earlier + count
  | _ :: earlier => takenSince earlier

def FewRefused (history : List Outcome) : Prop :=
  ∀ earlier, earlier <:+ history → refusedSince earlier < 0x100000000

theorem FewRefused.tail {outcome : Outcome} {history : List Outcome}
    (h : FewRefused (outcome :: history)) : FewRefused history := by
  intro earlier hearlier
  exact h earlier (hearlier.trans (List.suffix_cons outcome history))

/-- Every record that was offered got through, is counted in one account, or awaits one. -/
theorem offered_perm (history : List Outcome) :
    (offered history).Perm
      ((accepted history).map (·.1) ++ (accounts history).flatMap (·.2) ++ unreported history) := by
  induction history with
  | nil => exact .nil
  | cons outcome earlier ih =>
    cases outcome with
    | accepted entry carried =>
      apply (ih.cons entry).trans
      simp only [accepted, accounts, unreported, List.map_cons, List.flatMap_cons, List.cons_append,
        List.append_nil]
      apply List.Perm.cons
      rw [List.append_assoc]
      exact List.perm_append_comm.append_left _
    | refused entry =>
      apply (ih.cons entry).trans
      exact List.perm_middle.symm
    | taken count =>
      apply ih.trans
      simp only [accepted, accounts, unreported, List.flatMap_cons, List.append_nil]
      rw [List.append_assoc]
      exact List.perm_append_comm.append_left _
    | received entry carried => exact ih
    | waiting => exact ih

structure Accounted (log : WorkerLog) : Prop where
  counted : ∀ account ∈ accounts log.history, account.1 = account.2.length
  pending : log.handoff.dropped = (unreported log.history).length
  since : log.handoff.dropped + takenSince log.history = refusedSince log.history
  placed : ∀ later entry carried earlier,
    log.history = later ++ .accepted entry carried :: earlier →
      carried + takenSince earlier = refusedSince earlier
  ordered : (accepted log.history).reverse =
    (received log.history).reverse ++ log.handoff.queue

namespace Accounted

variable {log : WorkerLog}

theorem placed_cons (h : Accounted log) {outcome : Outcome}
    (hplain : ∀ entry carried, outcome ≠ .accepted entry carried) :
    ∀ later entry carried earlier, outcome :: log.history = later ++ .accepted entry carried :: earlier →
      carried + takenSince earlier = refusedSince earlier := by
  intro later entry carried earlier hsplit
  cases later with
  | nil => exact absurd (List.cons.inj hsplit).1 (hplain entry carried)
  | cons first later => exact h.placed later entry carried earlier (List.cons.inj hsplit).2

theorem new (capacity : Nat) : Accounted (.new capacity) where
  counted := by simp [WorkerLog.new, accounts]
  pending := rfl
  since := rfl
  placed := by simp [WorkerLog.new]
  ordered := rfl

theorem enqueue (h : Accounted log) (hasQueue : Bool) (entry : Entry)
    (hfew : FewRefused (log.step (.enqueue hasQueue entry)).history) :
    Accounted (log.step (.enqueue hasQueue entry)) := by
  have hsince := h.since
  by_cases hroom : (hasQueue && log.handoff.queue.length < log.handoff.capacity) = true
  · simp only [WorkerLog.step, Handoff.enqueue, hroom, if_true]
    constructor
    case counted =>
      intro account hmem
      rcases List.mem_cons.mp hmem with rfl | hold
      · exact h.pending
      · exact h.counted account hold
    case pending => rfl
    case since => rfl
    case placed =>
      intro later entry' carried earlier hsplit
      cases later with
      | nil =>
        obtain ⟨hfirst, rfl⟩ := List.cons.inj hsplit
        cases hfirst
        exact hsince
      | cons first later => exact h.placed later entry' carried earlier (List.cons.inj hsplit).2
    case ordered =>
      simp only [accepted, received, List.reverse_cons, h.ordered, List.append_assoc]
  · rw [Bool.not_eq_true] at hroom
    simp only [WorkerLog.step, Handoff.enqueue, hroom, Bool.false_eq_true, if_false] at hfew ⊢
    have hsmall := hfew _ (List.suffix_refl _)
    have hnext : (0 + saturatingAdd log.handoff.dropped 1) % 0x100000000 =
        log.handoff.dropped + 1 := by
      simp only [refusedSince] at hsmall
      unfold saturatingAdd
      omega
    constructor
    case counted => exact h.counted
    case pending =>
      rw [hnext, h.pending]
      rfl
    case since =>
      simp only [hnext, takenSince, refusedSince]
      omega
    case placed => exact h.placed_cons nofun
    case ordered => exact h.ordered

theorem takeUnreportedDrops (h : Accounted log) :
    Accounted (log.step .takeUnreportedDrops) := by
  constructor
  case counted =>
    intro account hmem
    rcases List.mem_cons.mp hmem with rfl | hold
    · exact h.pending
    · exact h.counted account hold
  case pending => rfl
  case since =>
    have hsince := h.since
    simp only [WorkerLog.step, Handoff.takeUnreportedDrops, takenSince, refusedSince]
    omega
  case placed => exact h.placed_cons nofun
  case ordered => exact h.ordered

theorem receive (h : Accounted log) : Accounted (log.step .receive) := by
  have hordered := h.ordered
  cases hqueue : log.handoff.queue with
  | nil =>
    simp only [WorkerLog.step, Handoff.receive, hqueue, List.head?_nil, List.tail_nil]
    constructor
    case counted => exact h.counted
    case pending => exact h.pending
    case since => exact h.since
    case placed => exact h.placed_cons nofun
    case ordered =>
      rw [hqueue] at hordered
      exact hordered
  | cons record queue =>
    simp only [WorkerLog.step, Handoff.receive, hqueue, List.head?_cons, List.tail_cons]
    constructor
    case counted => exact h.counted
    case pending => exact h.pending
    case since => exact h.since
    case placed => exact h.placed_cons nofun
    case ordered =>
      rw [hqueue] at hordered
      simp only [accepted, received, List.reverse_cons, List.append_assoc, List.singleton_append]
      exact hordered

theorem step (h : Accounted log) (operation : Operation)
    (hfew : FewRefused (log.step operation).history) : Accounted (log.step operation) := by
  cases operation with
  | enqueue hasQueue entry => exact h.enqueue hasQueue entry hfew
  | takeUnreportedDrops => exact h.takeUnreportedDrops
  | receive => exact h.receive

end Accounted

theorem history_step (log : WorkerLog) (operation : Operation) :
    ∃ outcome, (log.step operation).history = outcome :: log.history := by
  cases operation with
  | enqueue hasQueue entry => exact ⟨_, rfl⟩
  | takeUnreportedDrops => exact ⟨_, rfl⟩
  | receive =>
    simp only [WorkerLog.step]
    split <;> exact ⟨_, rfl⟩

theorem accounted_run (capacity : Nat) (operations : List Operation)
    (hfew : FewRefused (run WorkerLog.step (.new capacity) operations).history) :
    Accounted (run WorkerLog.step (.new capacity) operations) := by
  induction operations using List.reverseRecOn with
  | nil => exact Accounted.new capacity
  | append_singleton operations operation ih =>
    rw [run_concat] at hfew ⊢
    obtain ⟨outcome, hhistory⟩ := history_step (run WorkerLog.step (.new capacity) operations) operation
    exact (ih (hhistory ▸ hfew).tail).step operation hfew

theorem sum_accounts (history : List Outcome) :
    ((accounts history).map (·.1)).sum =
      ((accepted history).map (·.2)).sum + (taken history).sum := by
  induction history with
  | nil => rfl
  | cons outcome earlier ih =>
    cases outcome <;> simp only [accounts, accepted, taken, List.map_cons, List.sum_cons, ih] <;>
      omega

/-- Where every record of a run is: it got through, and was received or is still queued;
or it is counted by one record that got through, by one answer, or by the counter. -/
structure Conserved (log : WorkerLog) : Prop extends Accounted log where
  offered : (offered log.history).Perm
    ((accepted log.history).map (·.1) ++ (accounts log.history).flatMap (·.2) ++
      unreported log.history)
  total : (LogBridge.offered log.history).length =
    (accepted log.history).length + ((accepted log.history).map (·.2)).sum +
      (taken log.history).sum + log.handoff.dropped

theorem Accounted.total {log : WorkerLog} (h : Accounted log) :
    (offered log.history).length =
      (accepted log.history).length + ((accepted log.history).map (·.2)).sum +
        (taken log.history).sum + log.handoff.dropped := by
  have hlost : ((accounts log.history).flatMap (·.2)).length =
      ((accounts log.history).map (·.1)).sum := by
    rw [List.length_flatMap]
    apply congrArg List.sum
    apply List.map_congr_left
    intro account hmem
    exact (h.counted account hmem).symm
  rw [(offered_perm log.history).length_eq, List.length_append, List.length_append,
    List.length_map, hlost, sum_accounts, h.pending]
  omega

/-- While fewer than 2^32 records are refused in a row none is lost, and none is counted
twice or in the wrong place. -/
theorem drops_conserved (capacity : Nat) (operations : List Operation)
    (hfew : FewRefused (run WorkerLog.step (.new capacity) operations).history) :
    Conserved (run WorkerLog.step (.new capacity) operations) where
  toAccounted := accounted_run capacity operations hfew
  offered := offered_perm _
  total := (accounted_run capacity operations hfew).total

theorem refusedSince_le (history : List Outcome) : refusedSince history ≤ history.length := by
  induction history with
  | nil => exact Nat.le_refl 0
  | cons outcome earlier ih =>
    cases outcome <;> simp only [refusedSince, List.length_cons] <;> omega

theorem FewRefused.of_length {history : List Outcome} (h : history.length < 0x100000000) :
    FewRefused history := by
  intro earlier hearlier
  exact Nat.lt_of_le_of_lt (Nat.le_trans (refusedSince_le earlier) hearlier.length_le) h

def named (message : String) : Entry := ⟨0, 0, .info, "worker", none, message⟩

/-- A queue of one that refuses two records: the first is taken, and the last record to get
through carries the other. -/
def shortQueue : List Operation :=
  [.enqueue true (named "first"), .enqueue true (named "second"), .takeUnreportedDrops,
    .enqueue true (named "third"), .receive, .enqueue true (named "fourth")]

theorem drops_conserved_shortQueue : Conserved (run WorkerLog.step (.new 1) shortQueue) :=
  drops_conserved 1 shortQueue (.of_length (by decide))

/-- A record that waits in the queue has not been received, and nothing counts it. -/
theorem queued_not_received :
    ¬ ∀ (capacity : Nat) (operations : List Operation),
      FewRefused (run WorkerLog.step (.new capacity) operations).history →
        (offered (run WorkerLog.step (.new capacity) operations).history).length =
          (received (run WorkerLog.step (.new capacity) operations).history).length +
            ((received (run WorkerLog.step (.new capacity) operations).history).map (·.2)).sum +
            (taken (run WorkerLog.step (.new capacity) operations).history).sum +
            (run WorkerLog.step (.new capacity) operations).handoff.dropped := by
  intro h
  exact absurd (h 1 [.enqueue true (named "first")] (.of_length (by decide))) (by decide)

end WindbgMcp.LogBridge
