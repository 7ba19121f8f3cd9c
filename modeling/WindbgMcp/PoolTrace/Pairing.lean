import WindbgMcp.PoolTrace.Hits

/-! Every recorded allocation is paired with the call that made it, the calls in
flight are bounded, and none is lost from the counts. -/
namespace WindbgMcp.PoolTrace
open WindbgMcp.Library

/-- When a call was made: before the trace was armed, or at one of its hits. -/
inductive Made
  | beforeTrace
  | atHit (index : Nat)
  deriving DecidableEq

def Made.Precedes : Made → Nat → Prop
  | .beforeTrace, _ => True
  | .atHit made, index => made < index

/-- The calls of the target behind a sequence of hits.  A threadless hit is a call or
a return of a thread that the recorder is not told. -/
structure Calls (hits : List Hit) where
  /-- The call that a hit is the return of. -/
  returnOf : Nat → Option Made
  isReturn : ∀ {index site thread value}, hits[index]? = some (.returned site thread value) →
    returnOf index ≠ none
  isCall : ∀ {index site thread arguments}, hits[index]? = some (.entry site thread arguments) →
    returnOf index = none
  madeBefore : ∀ {index made}, returnOf index = some (.atHit made) → made < index
  samePair : ∀ {index made site thread value}, returnOf index = some (.atHit made) →
    hits[index]? = some (.returned site thread value) →
      (∃ arguments, hits[made]? = some (.entry site thread arguments)) ∨
        hits[made]? = some (.threadless site)
  sameSite : ∀ {index made site}, returnOf index = some (.atHit made) →
    hits[index]? = some (.threadless site) →
      (∃ thread arguments, hits[made]? = some (.entry site thread arguments)) ∨
        hits[made]? = some (.threadless site)
  returnsOnce : ∀ {index index' made}, returnOf index = some (.atHit made) →
    returnOf index' = some (.atHit made) → index = index'
  /-- A call returns only after all the calls made after it on its thread and site. -/
  innermostFirst : ∀ {index made site thread value later arguments},
    hits[index]? = some (.returned site thread value) → returnOf index = some made →
      made.Precedes later → later < index →
      hits[later]? = some (.entry site thread arguments) →
        ∃ earlier, earlier < index ∧ returnOf earlier = some (.atHit later)

def Calls.ReturnedBy {hits : List Hit} (calls : Calls hits) (now index : Nat) : Prop :=
  ∃ earlier, earlier < now ∧ calls.returnOf earlier = some (.atHit index)

def Hit.isEntry : Hit → Bool
  | .entry .. => true
  | _ => false

def sequenceAt (hits : List Hit) (index : Nat) : Nat := (hits.take index).countP Hit.isEntry

/-- The allocation carries the sequence, site, thread and arguments of one call: of
the call it was recorded at, or of the call whose return supplied its address. -/
inductive Paired {hits : List Hit} (calls : Calls hits) (allocation : Allocation) : Prop
  | atEntry (index : Nat)
      (call : hits[index]? =
        some (.entry allocation.site allocation.thread (some allocation.arguments)))
      (sequence : allocation.sequence = sequenceAt hits index)
      (address : allocation.address = none)
  | atReturn (index made : Nat) (value : UInt64)
      (supplied : hits[index]? =
        some (.returned allocation.site allocation.thread (some value)))
      (address : allocation.address = some value)
      (returns : calls.returnOf index = some (.atHit made))
      (call : hits[made]? =
        some (.entry allocation.site allocation.thread (some allocation.arguments)))
      (sequence : allocation.sequence = sequenceAt hits made)

section Waiting
variable {hits : List Hit} (calls : Calls hits)

/-- The calls on a stack before hit `now`, by the hits they were made at: entries of
that thread and site in their order, none of them returned, no threadless hit
since, and no open call missing above any of them. -/
structure Waiting (now : Nat) (key : Key) (made : List Nat) : Prop where
  entry : ∀ index ∈ made, ∃ arguments, hits[index]? = some (.entry key.2 key.1 arguments)
  before : ∀ index ∈ made, index < now
  ordered : made.Pairwise (· < ·)
  «open» : ∀ index ∈ made, ¬calls.ReturnedBy now index
  certain : ∀ index ∈ made, ∀ later, index < later → later < now →
    hits[later]? ≠ some (.threadless key.2)
  complete : ∀ index ∈ made, ∀ later arguments, index < later → later < now →
    hits[later]? = some (.entry key.2 key.1 arguments) → ¬calls.ReturnedBy now later →
      later ∈ made

variable {calls} {now : Nat} {key : Key} {made : List Nat}

theorem Calls.returnedBy_succ {index : Nat} : calls.ReturnedBy (now + 1) index ↔
    calls.ReturnedBy now index ∨ calls.returnOf now = some (.atHit index) := by
  constructor
  · intro ⟨earlier, hlt, hreturn⟩
    rcases Nat.lt_succ_iff_lt_or_eq.mp hlt with hbefore | rfl
    · exact .inl ⟨earlier, hbefore, hreturn⟩
    · exact .inr hreturn
  · intro h
    rcases h with ⟨earlier, hlt, hreturn⟩ | hreturn
    · exact ⟨earlier, Nat.lt_succ_of_lt hlt, hreturn⟩
    · exact ⟨now, Nat.lt_succ_self now, hreturn⟩

theorem Waiting.nil : Waiting calls now key [] := by
  constructor <;> simp

/-- Giving up on the oldest call of a stack leaves none open above the others. -/
theorem Waiting.tail (waiting : Waiting calls now key made) :
    Waiting calls now key made.tail := by
  cases made with
  | nil => exact waiting
  | cons bottom made =>
    have habove := List.pairwise_cons.mp waiting.ordered
    refine ⟨?_, ?_, habove.2, ?_, ?_, ?_⟩
    · exact fun index hindex => waiting.entry index (List.mem_cons_of_mem _ hindex)
    · exact fun index hindex => waiting.before index (List.mem_cons_of_mem _ hindex)
    · exact fun index hindex => waiting.open index (List.mem_cons_of_mem _ hindex)
    · exact fun index hindex => waiting.certain index (List.mem_cons_of_mem _ hindex)
    · intro index hindex later arguments hlater hnow hentry hopen
      have hmem := waiting.complete index (List.mem_cons_of_mem _ hindex) later arguments
        hlater hnow hentry hopen
      rcases List.mem_cons.mp hmem with rfl | hmem
      · have := habove.1 index hindex
        omega
      · exact hmem

theorem Waiting.pass (waiting : Waiting calls now key made)
    (hcall : ∀ arguments, hits[now]? ≠ some (.entry key.2 key.1 arguments))
    (hthreadless : hits[now]? ≠ some (.threadless key.2))
    (hreturn : ∀ index ∈ made, calls.returnOf now ≠ some (.atHit index)) :
    Waiting calls (now + 1) key made := by
  refine ⟨waiting.entry, ?_, waiting.ordered, ?_, ?_, ?_⟩
  · exact fun index hindex => Nat.lt_succ_of_lt (waiting.before index hindex)
  · intro index hindex hreturned
    rcases Calls.returnedBy_succ.mp hreturned with hbefore | hnow
    · exact waiting.open index hindex hbefore
    · exact hreturn index hindex hnow
  · intro index hindex later hlater hnow
    rcases Nat.lt_succ_iff_lt_or_eq.mp hnow with hbefore | rfl
    · exact waiting.certain index hindex later hlater hbefore
    · exact hthreadless
  · intro index hindex later arguments hlater hnow hentry hopen
    rcases Nat.lt_succ_iff_lt_or_eq.mp hnow with hbefore | rfl
    · apply waiting.complete index hindex later arguments hlater hbefore hentry
      exact fun hreturned => hopen (Calls.returnedBy_succ.mpr (.inl hreturned))
    · exact absurd hentry (hcall arguments)

theorem Waiting.push (waiting : Waiting calls now key made) {arguments : Option Arguments}
    (hcall : hits[now]? = some (.entry key.2 key.1 arguments)) :
    Waiting calls (now + 1) key (made ++ [now]) := by
  have hnone := calls.isCall hcall
  refine ⟨?_, ?_, ?_, ?_, ?_, ?_⟩
  · intro index hindex
    rcases List.mem_append.mp hindex with hold | hnew
    · exact waiting.entry index hold
    · rw [List.mem_singleton.mp hnew]
      exact ⟨arguments, hcall⟩
  · intro index hindex
    rcases List.mem_append.mp hindex with hold | hnew
    · exact Nat.lt_succ_of_lt (waiting.before index hold)
    · rw [List.mem_singleton.mp hnew]
      exact Nat.lt_succ_self now
  · rw [List.pairwise_append]
    refine ⟨waiting.ordered, List.pairwise_singleton .., ?_⟩
    intro index hindex new hnew
    rw [List.mem_singleton.mp hnew]
    exact waiting.before index hindex
  · intro index hindex hreturned
    rcases Calls.returnedBy_succ.mp hreturned with ⟨earlier, hlt, hreturn⟩ | hnow
    · rcases List.mem_append.mp hindex with hold | hnew
      · exact waiting.open index hold ⟨earlier, hlt, hreturn⟩
      · have hmade := calls.madeBefore hreturn
        have := List.mem_singleton.mp hnew
        omega
    · rw [hnone] at hnow
      cases hnow
  · intro index hindex later hlater hnow
    rcases Nat.lt_succ_iff_lt_or_eq.mp hnow with hbefore | rfl
    · rcases List.mem_append.mp hindex with hold | hnew
      · exact waiting.certain index hold later hlater hbefore
      · have := List.mem_singleton.mp hnew
        omega
    · rw [hcall]
      intro heq
      cases heq
  · intro index hindex later arguments' hlater hnow hentry hopen
    rcases Nat.lt_succ_iff_lt_or_eq.mp hnow with hbefore | rfl
    · rcases List.mem_append.mp hindex with hold | hnew
      · apply List.mem_append_left
        apply waiting.complete index hold later arguments' hlater hbefore hentry
        exact fun hreturned => hopen (Calls.returnedBy_succ.mpr (.inl hreturned))
      · have := List.mem_singleton.mp hnew
        omega
    · exact List.mem_append_right _ (List.mem_singleton_self _)

/-- The return belongs to the call at the top of the stack.  A call made before it
would have to wait for it, and no call made after it is still open. -/
theorem Waiting.returnOf_top {front : List Nat} {top : Nat} {value : Option UInt64}
    (waiting : Waiting calls now key (front ++ [top]))
    (hreturn : hits[now]? = some (.returned key.2 key.1 value)) :
    calls.returnOf now = some (.atHit top) := by
  have htop : top ∈ front ++ [top] := List.mem_append_right _ (List.mem_singleton_self _)
  obtain ⟨arguments, hentry⟩ := waiting.entry top htop
  have hopen := waiting.open top htop
  obtain ⟨made, hmade⟩ := Option.ne_none_iff_exists'.mp (calls.isReturn hreturn)
  have hlate : ¬made.Precedes top := by
    intro hprecedes
    exact hopen (calls.innermostFirst hreturn hmade hprecedes (waiting.before top htop) hentry)
  cases made with
  | beforeTrace => exact absurd trivial hlate
  | atHit index =>
    have hle : top ≤ index := Nat.le_of_not_lt hlate
    rcases Nat.lt_or_eq_of_le hle with hlt | rfl
    · exfalso
      have hbefore := calls.madeBefore hmade
      rcases calls.samePair hmade hreturn with ⟨arguments', hcall⟩ | hthreadless
      · have hopen' : ¬calls.ReturnedBy now index := by
          intro ⟨earlier, hearlier, hagain⟩
          have := calls.returnsOnce hmade hagain
          omega
        have hmem := waiting.complete top htop index arguments' hlt hbefore hcall hopen'
        rcases List.mem_append.mp hmem with hfront | hlast
        · have := (List.pairwise_append.mp waiting.ordered).2.2 index hfront top
            (List.mem_singleton_self _)
          omega
        · have := List.mem_singleton.mp hlast
          omega
      · exact waiting.certain top htop index hlt hbefore hthreadless
    · exact hmade

theorem Waiting.pop {front : List Nat} {top : Nat} {value : Option UInt64}
    (waiting : Waiting calls now key (front ++ [top]))
    (hreturn : hits[now]? = some (.returned key.2 key.1 value)) :
    Waiting calls (now + 1) key front := by
  have htop := waiting.returnOf_top hreturn
  have habove := List.pairwise_append.mp waiting.ordered
  refine ⟨?_, ?_, habove.1, ?_, ?_, ?_⟩
  · exact fun index hindex => waiting.entry index (List.mem_append_left _ hindex)
  · exact fun index hindex =>
      Nat.lt_succ_of_lt (waiting.before index (List.mem_append_left _ hindex))
  · intro index hindex hreturned
    rcases Calls.returnedBy_succ.mp hreturned with hbefore | hnow
    · exact waiting.open index (List.mem_append_left _ hindex) hbefore
    · rw [htop] at hnow
      have hlt := habove.2.2 index hindex top (List.mem_singleton_self _)
      cases hnow
      omega
  · intro index hindex later hlater hnow
    rcases Nat.lt_succ_iff_lt_or_eq.mp hnow with hbefore | rfl
    · exact waiting.certain index (List.mem_append_left _ hindex) later hlater hbefore
    · rw [hreturn]
      intro heq
      cases heq
  · intro index hindex later arguments hlater hnow hentry hopen
    rcases Nat.lt_succ_iff_lt_or_eq.mp hnow with hbefore | rfl
    · have hmem := waiting.complete index (List.mem_append_left _ hindex) later arguments
        hlater hbefore hentry
        fun hreturned => hopen (Calls.returnedBy_succ.mpr (.inl hreturned))
      rcases List.mem_append.mp hmem with hfront | hlast
      · exact hfront
      · rw [List.mem_singleton.mp hlast] at hopen
        exact absurd (Calls.returnedBy_succ.mpr (.inr htop)) hopen
    · rw [hreturn] at hentry
      cases hentry

theorem Waiting.returnOf_ne (waiting : Waiting calls now key made)
    (hother : (∃ site thread arguments, hits[now]? = some (.entry site thread arguments)) ∨
      (∃ site thread value, hits[now]? = some (.returned site thread value) ∧
        key ≠ (thread, site)) ∨
      ∃ site, hits[now]? = some (.threadless site) ∧ key.2 ≠ site) :
    ∀ index ∈ made, calls.returnOf now ≠ some (.atHit index) := by
  intro index hindex hreturn
  obtain ⟨arguments, hentry⟩ := waiting.entry index hindex
  rcases hother with ⟨site, thread, arguments', hnow⟩ | ⟨site, thread, value, hnow, hne⟩ |
      ⟨site, hnow, hne⟩
  · rw [calls.isCall hnow] at hreturn
    cases hreturn
  · rcases calls.samePair hreturn hnow with ⟨arguments', hcall⟩ | hthreadless
    · rw [hentry] at hcall
      cases hcall
      exact hne rfl
    · rw [hentry] at hthreadless
      cases hthreadless
  · rcases calls.sameSite hreturn hnow with ⟨thread, arguments', hcall⟩ | hthreadless
    · rw [hentry] at hcall
      cases hcall
      exact hne rfl
    · rw [hentry] at hthreadless
      cases hthreadless

end Waiting

def argumentsAt (hits : List Hit) (index : Nat) : Option Arguments :=
  match hits[index]? with
  | some (.entry _ _ arguments) => arguments
  | _ => none

def pendingAt (hits : List Hit) (index : Nat) : Pending :=
  ⟨sequenceAt hits index, argumentsAt hits index⟩

structure Faithful {hits : List Hit} (calls : Calls hits) (now : Nat) (recorder : Recorder) :
    Prop where
  sequence : recorder.nextSequence = sequenceAt hits now
  returning : ∀ key, recorder.waiting key ≠ [] → recorder.returns key.2 = true
  stacked : ∀ key, ∃ made, Waiting calls now key made ∧
    recorder.waiting key = made.map (pendingAt hits)
  paired : ∀ allocation ∈ recorder.allocations, Paired calls allocation

section Steps
variable {hits : List Hit} {calls : Calls hits} {now : Nat} {recorder : Recorder}

theorem sequenceAt_succ {hit : Hit} (h : hits[now]? = some hit) :
    sequenceAt hits (now + 1) = sequenceAt hits now + hit.isEntry.toNat := by
  unfold sequenceAt
  rw [List.take_add_one, h, List.countP_append]
  cases hit <;> rfl

theorem Recorder.returns_of_sites {other : Recorder} (h : other.sites = recorder.sites)
    (site : Nat) : other.returns site = recorder.returns site := by
  unfold Recorder.returns
  rw [h]

theorem Faithful.entry_direct (faithful : Faithful calls now recorder) {site : Nat}
    {thread : UInt64} {arguments : Option Arguments}
    (h : hits[now]? = some (.entry site thread arguments))
    (hreturns : recorder.returns site = false) :
    Faithful calls (now + 1) (recorder.step (.entry site thread arguments)) := by
  obtain ⟨moves, hnext⟩ := recorder.entry_direct thread arguments hreturns
  refine ⟨?_, ?_, ?_, ?_⟩
  · rw [hnext, faithful.sequence, sequenceAt_succ h]
    rfl
  · intro key hkey
    rw [moves.waiting] at hkey
    rw [Recorder.returns_of_sites moves.sites]
    exact faithful.returning key hkey
  · intro key
    rw [moves.waiting]
    obtain ⟨made, hwaiting, hmade⟩ := faithful.stacked key
    by_cases hkey : recorder.waiting key = []
    · exact ⟨[], Waiting.nil, hkey⟩
    · refine ⟨made, hwaiting.pass ?_ ?_ (hwaiting.returnOf_ne (.inl ⟨_, _, _, h⟩)), hmade⟩
      · -- No call waits at a site that is traced at entry only.
        intro arguments' hcall
        rw [h] at hcall
        cases hcall
        rw [faithful.returning key hkey] at hreturns
        cases hreturns
      · rw [h]
        intro heq
        cases heq
  · intro allocation hallocation
    rcases moves.allocations allocation hallocation with hold | ⟨read, rfl, rfl⟩
    · exact faithful.paired allocation hold
    · exact .atEntry now h faithful.sequence rfl

theorem Faithful.entry_held (faithful : Faithful calls now recorder) {site : Nat}
    {thread : UInt64} {arguments : Option Arguments}
    (h : hits[now]? = some (.entry site thread arguments))
    (hreturns : recorder.returns site = true) :
    Faithful calls (now + 1) (recorder.step (.entry site thread arguments)) := by
  obtain ⟨kept, hkept, moves, hnext⟩ := recorder.entry_held thread arguments hreturns
  have hstacked : ∀ key, ∃ made, Waiting calls now key made ∧
      kept key = made.map (pendingAt hits) := by
    intro key
    obtain ⟨made, hwaiting, hmade⟩ := faithful.stacked key
    rcases hkept key with heq | heq
    · exact ⟨made, hwaiting, heq.trans hmade⟩
    · refine ⟨made.tail, hwaiting.tail, ?_⟩
      rw [heq, hmade, List.map_tail]
  refine ⟨?_, ?_, ?_, ?_⟩
  · rw [hnext, faithful.sequence, sequenceAt_succ h]
    rfl
  · intro key hkey
    rw [moves.waiting] at hkey
    rw [Recorder.returns_of_sites moves.sites]
    by_cases hpair : key = (thread, site)
    · rw [hpair]
      exact hreturns
    · rw [if_neg hpair] at hkey
      apply faithful.returning key
      intro hempty
      rcases hkept key with heq | heq
      · exact hkey (heq.trans hempty)
      · rw [hempty] at heq
        exact hkey heq
  · intro key
    rw [moves.waiting]
    obtain ⟨made, hwaiting, hmade⟩ := hstacked key
    split
    case isTrue hpair =>
      have hcall : hits[now]? = some (.entry key.2 key.1 arguments) := by
        rw [hpair]
        exact h
      refine ⟨made ++ [now], hwaiting.push hcall, ?_⟩
      rw [hmade, List.map_append, List.map_singleton]
      unfold pendingAt argumentsAt
      rw [faithful.sequence, h]
    case isFalse hpair =>
      refine ⟨made, hwaiting.pass ?_ ?_ (hwaiting.returnOf_ne (.inl ⟨_, _, _, h⟩)), hmade⟩
      · intro arguments' hcall
        rw [h] at hcall
        cases hcall
        exact hpair rfl
      · rw [h]
        intro heq
        cases heq
  · intro allocation hallocation
    rcases moves.allocations allocation hallocation with hold | hnone
    · exact faithful.paired allocation hold
    · exact hnone.elim

theorem Faithful.returned (faithful : Faithful calls now recorder) {site : Nat}
    {thread : UInt64} {value : Option UInt64}
    (h : hits[now]? = some (.returned site thread value)) :
    Faithful calls (now + 1) (recorder.step (.returned site thread value)) := by
  have hsequence : sequenceAt hits (now + 1) = sequenceAt hits now := by
    rw [sequenceAt_succ h]
    rfl
  have hpass : ∀ key made, key ≠ (thread, site) → Waiting calls now key made →
      Waiting calls (now + 1) key made := by
    intro key made hkey hwaiting
    apply hwaiting.pass
    · intro arguments hcall
      rw [h] at hcall
      cases hcall
    · rw [h]
      intro heq
      cases heq
    · exact hwaiting.returnOf_ne (.inr (.inl ⟨_, _, _, h, hkey⟩))
  obtain ⟨made, hwaiting, hmade⟩ := faithful.stacked (thread, site)
  rcases List.eq_nil_or_concat made with rfl | ⟨front, top, rfl⟩
  · obtain ⟨moves, hnext⟩ := recorder.returned_orphan value hmade
    refine ⟨hnext.trans (faithful.sequence.trans hsequence.symm), ?_, ?_, ?_⟩
    · intro key hkey
      rw [moves.waiting] at hkey
      rw [Recorder.returns_of_sites moves.sites]
      exact faithful.returning key hkey
    · intro key
      rw [moves.waiting]
      by_cases hkey : key = (thread, site)
      · rw [hkey]
        exact ⟨[], Waiting.nil, hmade⟩
      · obtain ⟨made, hwaiting, hmade⟩ := faithful.stacked key
        exact ⟨made, hpass key made hkey hwaiting, hmade⟩
    · intro allocation hallocation
      rcases moves.allocations allocation hallocation with hold | hnone
      · exact faithful.paired allocation hold
      · exact hnone.elim
  · rw [List.concat_eq_append] at hwaiting hmade
    rw [List.map_append, List.map_singleton] at hmade
    obtain ⟨moves, hnext⟩ := recorder.returned_pops value hmade
    refine ⟨hnext.trans (faithful.sequence.trans hsequence.symm), ?_, ?_, ?_⟩
    · intro key hkey
      rw [moves.waiting] at hkey
      rw [Recorder.returns_of_sites moves.sites]
      apply faithful.returning key
      split at hkey
      case isTrue hpair =>
        rw [hpair, hmade]
        simp
      case isFalse => exact hkey
    · intro key
      rw [moves.waiting]
      split
      case isTrue hpair =>
        rw [hpair]
        exact ⟨front, hwaiting.pop h, rfl⟩
      case isFalse hpair =>
        obtain ⟨made, hwaiting, hmade⟩ := faithful.stacked key
        exact ⟨made, hpass key made hpair hwaiting, hmade⟩
    · intro allocation hallocation
      rcases moves.allocations allocation hallocation with hold | ⟨read, address, hread, rfl, rfl⟩
      · exact faithful.paired allocation hold
      · obtain ⟨arguments, hentry⟩ := hwaiting.entry top
          (List.mem_append_right _ (List.mem_singleton_self _))
        have harguments : arguments = some read := by
          unfold pendingAt argumentsAt at hread
          rw [hentry] at hread
          exact hread
        rw [harguments] at hentry
        exact .atReturn now top address h rfl (hwaiting.returnOf_top h) hentry rfl

theorem Faithful.threadless (faithful : Faithful calls now recorder) {site : Nat}
    (h : hits[now]? = some (.threadless site)) :
    Faithful calls (now + 1) (recorder.step (.threadless site)) := by
  obtain ⟨moves, hnext⟩ := recorder.threadless_moves site
  refine ⟨?_, ?_, ?_, ?_⟩
  · rw [hnext, faithful.sequence, sequenceAt_succ h]
    rfl
  · intro key hkey
    rw [moves.waiting] at hkey
    rw [Recorder.returns_of_sites moves.sites]
    apply faithful.returning key
    split at hkey
    case isTrue => exact absurd rfl hkey
    case isFalse => exact hkey
  · intro key
    rw [moves.waiting]
    split
    case isTrue => exact ⟨[], Waiting.nil, rfl⟩
    case isFalse hsite =>
      obtain ⟨made, hwaiting, hmade⟩ := faithful.stacked key
      refine ⟨made, hwaiting.pass ?_ ?_ (hwaiting.returnOf_ne (.inr (.inr ⟨_, h, hsite⟩))), hmade⟩
      · intro arguments hcall
        rw [h] at hcall
        cases hcall
      · rw [h]
        intro heq
        cases heq
        exact hsite rfl
  · intro allocation hallocation
    rcases moves.allocations allocation hallocation with hold | hnone
    · exact faithful.paired allocation hold
    · exact hnone.elim

theorem Faithful.step (faithful : Faithful calls now recorder) {hit : Hit}
    (h : hits[now]? = some hit) : Faithful calls (now + 1) (recorder.step hit) := by
  cases hit with
  | entry site thread arguments =>
    cases hreturns : recorder.returns site with
    | false => exact faithful.entry_direct h hreturns
    | true => exact faithful.entry_held h hreturns
  | returned site thread value => exact faithful.returned h
  | threadless site => exact faithful.threadless h

end Steps

theorem Faithful.new {hits : List Hit} (calls : Calls hits) (sites : List Site) (limit : Nat) :
    Faithful calls 0 (Recorder.new sites limit) := by
  refine ⟨rfl, ?_, ?_, ?_⟩
  · intro key hkey
    exact absurd rfl hkey
  · intro key
    exact ⟨[], Waiting.nil, rfl⟩
  · intro allocation hallocation
    cases hallocation

theorem trace_faithful {hits : List Hit} (calls : Calls hits) (sites : List Site) (limit : Nat)
    {now : Nat} (hnow : now ≤ hits.length) :
    Faithful calls now (trace sites limit (hits.take now)) := by
  induction now with
  | zero => exact Faithful.new calls sites limit
  | succ now ih =>
    have hlt : now < hits.length := hnow
    have hstep := (ih hlt.le).step (List.getElem?_eq_getElem hlt)
    unfold trace run at hstep ⊢
    rw [List.take_succ_eq_append_getElem hlt, List.foldl_append]
    exact hstep

def Recorder.pops (recorder : Recorder) : Hit → Bool
  | .returned site thread _ => !(recorder.waiting (thread, site)).isEmpty
  | _ => false

def Recorder.entersReturning (recorder : Recorder) : Hit → Bool
  | .entry site _ _ => recorder.returns site
  | _ => false

theorem Recorder.step_moves (recorder : Recorder) (hit : Hit) :
    ∃ left recorded, Moves recorder (recorder.step hit) left recorded
      (recorder.entersReturning hit).toNat (recorder.pops hit).toNat := by
  cases hit with
  | entry site thread arguments =>
    unfold entersReturning pops
    dsimp only
    cases hreturns : recorder.returns site with
    | false => exact ⟨_, _, (recorder.entry_direct thread arguments hreturns).1⟩
    | true =>
      obtain ⟨kept, -, moves, -⟩ := recorder.entry_held thread arguments hreturns
      exact ⟨_, _, moves⟩
  | returned site thread value =>
    unfold entersReturning pops
    dsimp only
    rcases List.eq_nil_or_concat (recorder.waiting (thread, site)) with hnil | ⟨calls, call, heq⟩
    · rw [hnil]
      exact ⟨_, _, (recorder.returned_orphan value hnil).1⟩
    · rw [heq]
      rw [List.concat_eq_append] at heq ⊢
      have hne : (!(calls ++ [call]).isEmpty).toNat = 1 := by simp
      rw [hne]
      exact ⟨_, _, (recorder.returned_pops value heq).1⟩
  | threadless site => exact ⟨_, _, (recorder.threadless_moves site).1⟩

theorem run_held (hits : List Hit) : ∀ recorder : Recorder,
    (run Recorder.step recorder hits).heldCount +
        (visits Recorder.step recorder hits).countP (fun visit => visit.1.pops visit.2) =
      recorder.heldCount + hits.countP recorder.entersReturning := by
  induction hits with
  | nil => exact fun _ => rfl
  | cons hit hits ih =>
    intro recorder
    obtain ⟨left, recorded, moves⟩ := recorder.step_moves hit
    have hrest := ih (recorder.step hit)
    have hsites : (recorder.step hit).entersReturning = recorder.entersReturning := by
      funext other
      cases other with
      | entry site thread arguments => exact Recorder.returns_of_sites moves.sites site
      | returned | threadless => rfl
    rw [hsites] at hrest
    have hheld := moves.held
    rw [run_cons, visits, List.countP_cons, List.countP_cons]
    cases hpops : recorder.pops hit <;> cases henters : recorder.entersReturning hit <;>
      rw [hpops, henters] at hheld <;> simp only [Bool.toNat_true, Bool.toNat_false] at hheld <;>
      simp <;> omega

theorem run_bounded (hits : List Hit) : ∀ recorder : Recorder,
    recorder.pendingCount ≤ maxPending →
      (run Recorder.step recorder hits).pendingCount ≤ maxPending := by
  induction hits with
  | nil => exact fun _ h => h
  | cons hit hits ih =>
    intro recorder hbound
    obtain ⟨left, recorded, moves⟩ := recorder.step_moves hit
    exact ih (recorder.step hit) (moves.bounded hbound)

/-- Under any interleaving, eviction and unreadable hit, an allocation is recorded
with the call that made it, the calls in flight stay within the bound, and every
call that was to return is popped, waiting or counted as unpaired. -/
theorem allocations_paired (sites : List Site) (limit : Nat) (hits : List Hit)
    (calls : Calls hits) :
    (∀ allocation ∈ (trace sites limit hits).allocations, Paired calls allocation) ∧
    (∀ now, (trace sites limit (hits.take now)).pendingCount ≤ maxPending) ∧
    hits.countP (Recorder.new sites limit).entersReturning =
      (visits Recorder.step (Recorder.new sites limit) hits).countP
          (fun visit => visit.1.pops visit.2) +
        (trace sites limit hits).pendingCount + (trace sites limit hits).unpaired := by
  refine ⟨?_, ?_, ?_⟩
  · have faithful := trace_faithful calls sites limit (Nat.le_refl hits.length)
    rw [List.take_length] at faithful
    exact faithful.paired
  · intro now
    exact run_bounded (hits.take now) _ (Nat.zero_le _)
  · have hheld := run_held hits (Recorder.new sites limit)
    have hnew : (Recorder.new sites limit).heldCount = 0 := rfl
    unfold Recorder.heldCount at hheld hnew
    unfold trace
    omega

/-- A call interrupted by one whose arguments would not read, at the same site on the
same thread. -/
def nestedHits : List Hit :=
  [.entry 0 10 (some #v[0x200, 0x40, 0]), .entry 0 10 none, .returned 0 10 (some 0x2000),
    .returned 0 10 (some 0x1000)]

def nestedCalls : Calls nestedHits where
  returnOf := fun index => if index = 2 then some (.atHit 1) else if index = 3 then some (.atHit 0)
    else none
  isReturn := by
    intro index site thread value h
    match index with
    | 0 | 1 => cases h
    | 2 | 3 => simp
    | index + 4 => cases h
  isCall := by
    intro index site thread arguments h
    match index with
    | 0 | 1 => rfl
    | 2 | 3 => cases h
    | index + 4 => cases h
  madeBefore := by
    intro index made h
    grind
  samePair := by
    intro index made site thread value h hreturn
    match index with
    | 0 | 1 => cases h
    | 2 | 3 => cases h; cases hreturn; exact .inl ⟨_, rfl⟩
    | index + 4 => cases hreturn
  sameSite := by
    intro index made site h hreturn
    match index with
    | 0 | 1 | 2 | 3 => cases hreturn
    | index + 4 => cases hreturn
  returnsOnce := by
    intro index index' made h h'
    grind
  innermostFirst := by
    intro index made site thread value later arguments h hreturn hprecedes hlater hcall
    match index with
    | 0 | 1 => cases h
    | 2 =>
      cases hreturn
      unfold Made.Precedes at hprecedes
      omega
    | 3 =>
      cases hreturn
      unfold Made.Precedes at hprecedes
      match later with
      | 0 => omega
      | 1 => exact ⟨2, by decide, rfl⟩
      | 2 => cases hcall
    | index + 4 => cases h

theorem allocations_paired_nested :
    (trace [⟨"ExAllocatePool2", 0x1000, some 0x1004⟩] 8 nestedHits).allocations =
        [⟨0, 0, 10, #v[0x200, 0x40, 0], some 0x1000⟩] ∧
      Paired nestedCalls ⟨0, 0, 10, #v[0x200, 0x40, 0], some 0x1000⟩ := by
  have hrecorded : (trace [⟨"ExAllocatePool2", 0x1000, some 0x1004⟩] 8 nestedHits).allocations =
      [⟨0, 0, 10, #v[0x200, 0x40, 0], some 0x1000⟩] := by decide
  refine ⟨hrecorded, ?_⟩
  apply (allocations_paired _ 8 nestedHits nestedCalls).1
  rw [hrecorded]
  exact List.mem_singleton_self _

end WindbgMcp.PoolTrace
