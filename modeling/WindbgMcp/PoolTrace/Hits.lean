import WindbgMcp.PoolTrace.Recorder

/-! What one hit does to the recorder: one lemma for each of its branches, in terms
of the stacks of waiting calls, the allocations and the counts. -/
namespace WindbgMcp.PoolTrace
open WindbgMcp.Library

namespace Recorder
variable (recorder : Recorder)

def waiting (key : Key) : List Pending := recorder.pending.stack key

/-- What `record` can do: it adds at most the allocation and touches no waiting call. -/
theorem record_cases (allocation : Allocation) :
    ∃ allocations dropped full,
      (recorder.record allocation).1 =
        { recorder with allocations := allocations, dropped := dropped, full := full } ∧
      ∀ other ∈ allocations, other ∈ recorder.allocations ∨ other = allocation := by
  unfold record
  split
  · exact ⟨recorder.allocations, _, recorder.full, rfl, fun _ h => .inl h⟩
  · dsimp only
    split
    · exact ⟨_, recorder.dropped, true, rfl, fun _ h => by simpa using h⟩
    · exact ⟨_, recorder.dropped, recorder.full, rfl, fun _ h => by simpa using h⟩

theorem lookup_eq_some {key : Key} {calls : List Pending}
    (h : recorder.pending.lookup key = some calls) : recorder.waiting key = calls := by
  unfold waiting KeyedStacks.stack
  rw [h]
  rfl

theorem lookup_of_waiting {key : Key} (h : recorder.waiting key ≠ []) :
    recorder.pending.lookup key = some (recorder.waiting key) := by
  unfold waiting KeyedStacks.stack at h ⊢
  cases hlookup : recorder.pending.lookup key with
  | none =>
    rw [hlookup] at h
    exact absurd rfl h
  | some calls => rfl

theorem oldest_cases :
    (recorder.oldest = none ∧ recorder.pendingCount = 0) ∨
      ∃ key, recorder.oldest = some key ∧ recorder.waiting key ≠ [] := by
  unfold oldest
  dsimp only
  cases hmin : List.argmin Prod.fst (recorder.pending.entries.filterMap fun entry =>
      entry.2.head?.map fun call => (call.sequence, entry.1)) with
  | none =>
    left
    refine ⟨rfl, ?_⟩
    have hnil := List.argmin_eq_none.mp hmin
    by_contra hpos
    obtain ⟨entry, hentry, hne⟩ :=
      KeyedStacks.exists_mem_of_total_pos (Nat.pos_of_ne_zero hpos)
    have hnone := List.filterMap_eq_nil_iff.mp hnil entry hentry
    rw [Option.map_eq_none_iff, List.head?_eq_none_iff] at hnone
    exact hne hnone
  | some found =>
    right
    refine ⟨found.2, rfl, ?_⟩
    obtain ⟨entry, hentry, hmap⟩ := List.mem_filterMap.mp (List.argmin_mem hmin)
    obtain ⟨call, hcall, rfl⟩ := Option.map_eq_some_iff.mp hmap
    unfold waiting
    rw [KeyedStacks.stack_of_mem hentry]
    intro hempty
    rw [hempty] at hcall
    cases hcall

theorem evictOldest_cases :
    (recorder.evictOldest = recorder ∧ recorder.pendingCount = 0) ∨
      ∃ key call calls, recorder.waiting key = call :: calls ∧
        recorder.evictOldest =
          { recorder with
            pending := recorder.pending.setStack key calls
            unpaired := recorder.unpaired + 1 } := by
  unfold evictOldest
  rcases recorder.oldest_cases with ⟨hnone, hcount⟩ | ⟨key, hsome, hne⟩
  · left
    rw [hnone]
    exact ⟨rfl, hcount⟩
  · right
    obtain ⟨call, calls, hwaiting⟩ := List.exists_cons_of_ne_nil hne
    refine ⟨key, call, calls, hwaiting, ?_⟩
    rw [hsome]
    dsimp only
    rw [recorder.lookup_of_waiting hne, hwaiting]
    rfl

theorem hold_cases (key : Key) (call : Pending) :
    ∃ roomy : Recorder,
      (roomy = recorder ∧ recorder.pendingCount < maxPending ∨
        ∃ oldest evicted calls, recorder.waiting oldest = evicted :: calls ∧
          roomy = { recorder with
            pending := recorder.pending.setStack oldest calls
            unpaired := recorder.unpaired + 1 }) ∧
      recorder.hold key call =
        { roomy with pending := roomy.pending.setStack key (roomy.waiting key ++ [call]) } := by
  have hpush : ∀ other : Recorder,
      other.pending.insert key (other.pending.stack key ++ [call]) =
        other.pending.setStack key (other.waiting key ++ [call]) := by
    intro other
    unfold KeyedStacks.setStack waiting
    rw [if_neg (by simp)]
  unfold hold
  dsimp only
  simp only [hpush]
  split
  case isTrue hfull =>
    refine ⟨recorder.evictOldest, .inr ?_, rfl⟩
    rcases recorder.evictOldest_cases with ⟨-, hzero⟩ | hevicted
    · unfold maxPending at hfull
      omega
    · exact hevicted
  case isFalse hroom =>
    exact ⟨recorder, .inl ⟨rfl, Nat.lt_of_not_le hroom⟩, rfl⟩

/-- Giving up on a list of keys empties their stacks into the count of unpaired calls. -/
theorem foldl_abandon (keys : List Key) : ∀ recorder : Recorder,
    ∃ pending unpaired,
      keys.foldl abandon recorder = { recorder with pending := pending, unpaired := unpaired } ∧
      (∀ key, pending.stack key = if key ∈ keys then [] else recorder.waiting key) ∧
      pending.total + unpaired = recorder.pendingCount + recorder.unpaired ∧
      recorder.unpaired ≤ unpaired := by
  induction keys with
  | nil =>
    intro recorder
    exact ⟨recorder.pending, recorder.unpaired, rfl, fun _ => rfl, rfl, Nat.le_refl _⟩
  | cons first keys ih =>
    intro recorder
    have hfirst : ∃ pending unpaired,
        recorder.abandon first = { recorder with pending := pending, unpaired := unpaired } ∧
        (∀ key, pending.stack key = if key = first then [] else recorder.waiting key) ∧
        pending.total + unpaired = recorder.pendingCount + recorder.unpaired ∧
        recorder.unpaired ≤ unpaired := by
      unfold abandon
      split
      case h_1 hnone =>
        refine ⟨recorder.pending, recorder.unpaired, rfl, ?_, rfl, Nat.le_refl _⟩
        intro key
        split
        case isTrue heq =>
          unfold KeyedStacks.stack
          rw [heq, hnone]
          rfl
        case isFalse => rfl
      case h_2 calls hsome =>
        refine ⟨_, _, rfl, fun key => KeyedStacks.stack_erase .., ?_, Nat.le_add_right _ _⟩
        have htotal := KeyedStacks.total_erase recorder.pending first
        have hlength : (recorder.pending.stack first).length = calls.length :=
          congrArg List.length (recorder.lookup_eq_some hsome)
        unfold pendingCount
        omega
    obtain ⟨pending, unpaired, heq, hstack, htotal, hle⟩ := hfirst
    obtain ⟨pending', unpaired', heq', hstack', htotal', hle'⟩ := ih (recorder.abandon first)
    refine ⟨pending', unpaired', ?_, ?_, ?_, ?_⟩
    · rw [List.foldl_cons, heq', heq]
    · intro key
      rw [hstack' key, heq]
      unfold waiting
      rw [hstack key]
      by_cases hkey : key = first
      · simp [hkey]
      · simp only [List.mem_cons, hkey, false_or, if_false]
        rfl
    · rw [heq] at htotal'
      unfold pendingCount at htotal htotal' ⊢
      exact htotal'.trans htotal
    · rw [heq] at hle'
      exact hle.trans hle'

/-- The calls that were not given up on or returned from: those that wait and those
counted as unpaired. -/
def heldCount : Nat := recorder.pendingCount + recorder.unpaired

end Recorder

/-- What one hit does: the stacks it leaves (`left`), the allocation it may record, and the
calls it adds to those held (`entered`) or takes from them (`popped`). -/
structure Moves (before after : Recorder) (left : Key → List Pending)
    (recorded : Allocation → Prop) (entered popped : Nat) : Prop where
  sites : after.sites = before.sites
  waiting : ∀ key, after.waiting key = left key
  allocations : ∀ allocation ∈ after.allocations,
    allocation ∈ before.allocations ∨ recorded allocation
  held : after.heldCount + popped = before.heldCount + entered
  bounded : before.pendingCount ≤ maxPending → after.pendingCount ≤ maxPending

namespace Recorder
variable (recorder : Recorder)

theorem step_entry (site : Nat) (thread : UInt64) (arguments : Option Arguments) :
    ∃ counted : Recorder,
      (∃ unreadable, counted = { recorder with
        nextSequence := recorder.nextSequence + 1, unreadable := unreadable }) ∧
      recorder.step (.entry site thread arguments) =
        if recorder.returns site then
          counted.hold (thread, site) ⟨recorder.nextSequence, arguments⟩
        else
          match arguments with
          | some read =>
            (counted.record ⟨recorder.nextSequence, site, thread, read, none⟩).1
          | none => counted := by
  refine ⟨if arguments.isNone then
      { recorder with
        nextSequence := recorder.nextSequence + 1, unreadable := recorder.unreadable + 1 }
    else { recorder with nextSequence := recorder.nextSequence + 1 }, ?_, ?_⟩
  · split <;> exact ⟨_, rfl⟩
  · have hreturns : (if arguments.isNone then
        { recorder with
          nextSequence := recorder.nextSequence + 1, unreadable := recorder.unreadable + 1 }
      else { recorder with nextSequence := recorder.nextSequence + 1 }).returns site =
        recorder.returns site := by
      split <;> rfl
    unfold step hit entry
    dsimp only
    rw [hreturns]
    cases recorder.returns site <;> cases arguments <;> rfl

theorem entry_direct {site : Nat} (thread : UInt64) (arguments : Option Arguments)
    (h : recorder.returns site = false) :
    Moves recorder (recorder.step (.entry site thread arguments)) recorder.waiting
      (fun allocation => ∃ read, arguments = some read ∧
        allocation = ⟨recorder.nextSequence, site, thread, read, none⟩) 0 0 ∧
    (recorder.step (.entry site thread arguments)).nextSequence = recorder.nextSequence + 1 := by
  obtain ⟨counted, ⟨unreadable, rfl⟩, heq⟩ := recorder.step_entry site thread arguments
  rw [heq, if_neg (by simp [h])]
  cases arguments with
  | none => exact ⟨⟨rfl, fun _ => rfl, fun _ h => .inl h, rfl, id⟩, rfl⟩
  | some read =>
    obtain ⟨allocations, dropped, full, hrecord, hmem⟩ :=
      ({ recorder with
        nextSequence := recorder.nextSequence + 1
        unreadable := unreadable } : Recorder).record_cases
        ⟨recorder.nextSequence, site, thread, read, none⟩
    dsimp only
    rw [hrecord]
    refine ⟨⟨rfl, fun _ => rfl, ?_, rfl, id⟩, rfl⟩
    intro allocation hallocation
    rcases hmem allocation hallocation with hold | hnew
    · exact .inl hold
    · exact .inr ⟨read, rfl, hnew⟩

theorem entry_held {site : Nat} (thread : UInt64) (arguments : Option Arguments)
    (h : recorder.returns site = true) :
    ∃ kept : Key → List Pending,
      (∀ key, kept key = recorder.waiting key ∨ kept key = (recorder.waiting key).tail) ∧
      Moves recorder (recorder.step (.entry site thread arguments))
        (fun key => if key = (thread, site) then
          kept key ++ [⟨recorder.nextSequence, arguments⟩] else kept key)
        (fun _ => False) 1 0 ∧
      (recorder.step (.entry site thread arguments)).nextSequence =
        recorder.nextSequence + 1 := by
  obtain ⟨counted, ⟨unreadable, rfl⟩, heq⟩ := recorder.step_entry site thread arguments
  rw [heq, if_pos h]
  obtain ⟨roomy, hroomy, hhold⟩ := ({ recorder with
    nextSequence := recorder.nextSequence + 1
    unreadable := unreadable } : Recorder).hold_cases
      (thread, site) ⟨recorder.nextSequence, arguments⟩
  rw [hhold]
  have hpush := KeyedStacks.total_setStack roomy.pending (thread, site)
    (roomy.waiting (thread, site) ++ [⟨recorder.nextSequence, arguments⟩])
  rw [List.length_append, List.length_singleton] at hpush
  have hgrow : (roomy.pending.setStack (thread, site)
      (roomy.waiting (thread, site) ++ [⟨recorder.nextSequence, arguments⟩])).total =
        roomy.pendingCount + 1 := by
    unfold waiting pendingCount at *
    omega
  have hpushed : ∀ key, (roomy.pending.setStack (thread, site)
      (roomy.waiting (thread, site) ++ [⟨recorder.nextSequence, arguments⟩])).stack key =
        if key = (thread, site) then
          roomy.waiting key ++ [⟨recorder.nextSequence, arguments⟩] else roomy.waiting key := by
    intro key
    rw [KeyedStacks.stack_setStack]
    split
    case isTrue heq => rw [heq]
    case isFalse => rfl
  refine ⟨roomy.waiting, ?_⟩
  rcases hroomy with ⟨rfl, hroom⟩ | ⟨oldest, evicted, calls, hbottom, rfl⟩
  · refine ⟨fun key => .inl rfl, ⟨rfl, hpushed, fun _ h => .inl h, ?_, ?_⟩, rfl⟩
    · unfold heldCount pendingCount at *
      dsimp only at *
      omega
    · intro _
      unfold pendingCount at *
      dsimp only at *
      omega
  · have hcut := KeyedStacks.total_setStack recorder.pending oldest calls
    have hlength : (recorder.pending.stack oldest).length = calls.length + 1 :=
      congrArg List.length hbottom
    refine ⟨?_, ⟨rfl, hpushed, fun _ h => .inl h, ?_, ?_⟩, rfl⟩
    · intro key
      unfold waiting
      dsimp only
      rw [KeyedStacks.stack_setStack]
      split
      case isTrue heq =>
        right
        have hbottom' : recorder.pending.stack oldest = evicted :: calls := hbottom
        rw [heq, hbottom', List.tail_cons]
      case isFalse => exact .inl rfl
    · unfold heldCount pendingCount at *
      dsimp only at *
      omega
    · intro _
      unfold pendingCount at *
      dsimp only at *
      omega

theorem step_returned (site : Nat) (thread : UInt64) (value : Option UInt64) :
    ∃ counted : Recorder,
      (∃ unreadable, counted = { recorder with unreadable := unreadable }) ∧
      recorder.step (.returned site thread value) =
        match (recorder.waiting (thread, site)).getLast? with
        | none => counted
        | some call =>
          let popped := { counted with
            pending := recorder.pending.setStack (thread, site)
              (recorder.waiting (thread, site)).dropLast }
          match call.arguments, value with
          | some read, some address =>
            (popped.record ⟨call.sequence, site, thread, read, some address⟩).1
          | _, _ => popped := by
  refine ⟨if value.isNone then { recorder with unreadable := recorder.unreadable + 1 }
    else recorder, ?_, ?_⟩
  · split
    · exact ⟨_, rfl⟩
    · exact ⟨recorder.unreadable, rfl⟩
  · have hpending : (if value.isNone then { recorder with unreadable := recorder.unreadable + 1 }
        else recorder).pending = recorder.pending := by
      split <;> rfl
    unfold step hit returned waiting KeyedStacks.stack
    dsimp only
    rw [hpending]
    cases recorder.pending.lookup (thread, site) with
    | none => rfl
    | some calls =>
      simp only [Option.getD_some]
      cases calls.getLast? with
      | none => rfl
      | some call =>
        dsimp only
        cases call.arguments <;> cases value <;> rfl

theorem returned_orphan {site : Nat} {thread : UInt64} (value : Option UInt64)
    (h : recorder.waiting (thread, site) = []) :
    Moves recorder (recorder.step (.returned site thread value)) recorder.waiting
      (fun _ => False) 0 0 ∧
    (recorder.step (.returned site thread value)).nextSequence = recorder.nextSequence := by
  obtain ⟨counted, ⟨unreadable, rfl⟩, heq⟩ := recorder.step_returned site thread value
  rw [heq, h]
  exact ⟨⟨rfl, fun _ => rfl, fun _ h => .inl h, rfl, id⟩, rfl⟩

theorem returned_pops {site : Nat} {thread : UInt64} (value : Option UInt64)
    {calls : List Pending} {call : Pending}
    (h : recorder.waiting (thread, site) = calls ++ [call]) :
    Moves recorder (recorder.step (.returned site thread value))
      (fun key => if key = (thread, site) then calls else recorder.waiting key)
      (fun allocation => ∃ read address, call.arguments = some read ∧ value = some address ∧
        allocation = ⟨call.sequence, site, thread, read, some address⟩) 0 1 ∧
    (recorder.step (.returned site thread value)).nextSequence = recorder.nextSequence := by
  obtain ⟨counted, ⟨unreadable, rfl⟩, heq⟩ := recorder.step_returned site thread value
  rw [heq, h, List.getLast?_concat, List.dropLast_concat]
  dsimp only
  have hstack := fun other =>
    KeyedStacks.stack_setStack recorder.pending (thread, site) other calls
  have hcut := KeyedStacks.total_setStack recorder.pending (thread, site) calls
  have hlength : (recorder.pending.stack (thread, site)).length = calls.length + 1 := by
    have hwaiting : recorder.pending.stack (thread, site) = calls ++ [call] := h
    rw [hwaiting, List.length_append, List.length_singleton]
  have hpopped : Moves recorder
      { recorder with
        unreadable := unreadable, pending := recorder.pending.setStack (thread, site) calls }
      (fun key => if key = (thread, site) then calls else recorder.waiting key)
      (fun allocation => ∃ read address, call.arguments = some read ∧ value = some address ∧
        allocation = ⟨call.sequence, site, thread, read, some address⟩) 0 1 := by
    refine ⟨rfl, hstack, fun _ h => .inl h, ?_, ?_⟩
    · unfold heldCount pendingCount
      dsimp only
      omega
    · unfold pendingCount
      dsimp only
      omega
  cases harguments : call.arguments with
  | none =>
    rw [harguments] at hpopped
    exact ⟨hpopped, rfl⟩
  | some read =>
    rw [harguments] at hpopped
    cases value with
    | none => exact ⟨hpopped, rfl⟩
    | some address =>
      dsimp only
      obtain ⟨allocations, dropped, full, hrecord, hmem⟩ :=
        ({ recorder with
          unreadable := unreadable
          pending := recorder.pending.setStack (thread, site) calls } : Recorder).record_cases
          ⟨call.sequence, site, thread, read, some address⟩
      rw [hrecord]
      refine ⟨⟨rfl, hpopped.waiting, ?_, hpopped.held, hpopped.bounded⟩, rfl⟩
      intro allocation hallocation
      rcases hmem allocation hallocation with hold | hnew
      · exact .inl hold
      · exact .inr ⟨read, address, rfl, rfl, hnew⟩

theorem threadless_moves (site : Nat) :
    Moves recorder (recorder.step (.threadless site))
      (fun key => if key.2 = site then [] else recorder.waiting key) (fun _ => False) 0 0 ∧
    (recorder.step (.threadless site)).nextSequence = recorder.nextSequence := by
  unfold step hit threadless
  dsimp only
  obtain ⟨pending, unpaired, heq, hstack, htotal, hle⟩ := foldl_abandon
    (recorder.pending.keys.filter fun key => key.2 = site)
    { recorder with unreadable := recorder.unreadable + 1 }
  rw [heq]
  refine ⟨⟨rfl, ?_, fun _ h => .inl h, htotal, ?_⟩, rfl⟩
  · intro key
    have hkey := hstack key
    unfold waiting at hkey ⊢
    dsimp only at hkey ⊢
    rw [hkey]
    by_cases hsite : key.2 = site
    · rw [if_pos hsite]
      split
      case isTrue => rfl
      case isFalse hnot =>
        have habsent : key ∉ recorder.pending := by
          intro hmem
          apply hnot
          exact List.mem_filter.mpr ⟨AList.mem_keys.mp hmem, decide_eq_true hsite⟩
        unfold KeyedStacks.stack
        rw [AList.lookup_eq_none.mpr habsent]
        rfl
    · rw [if_neg hsite, if_neg]
      intro hmem
      exact hsite (of_decide_eq_true (List.mem_filter.mp hmem).2)
  · intro hbound
    unfold pendingCount at *
    dsimp only at *
    omega

end Recorder
end WindbgMcp.PoolTrace
