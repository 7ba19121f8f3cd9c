import Mathlib.Data.List.Sort
import WindbgMcp.LogBridge.Ring

/-! Paging by the cursor of the visible stream.  The ring is always the newest part of
everything filed, so a cursor one past a record that was filed stays behind whatever
comes later, whether or not that record is still held. -/
namespace WindbgMcp.LogBridge
open WindbgMcp.Library

def Entry.Before (entry later : Entry) : Prop := entry.seq < later.seq

theorem filed_append_file (calls : List Call) (record : Record) :
    filed (calls ++ [.file record]) =
      filed calls ++ [record.entry (filed calls).length] := by
  simp [filed, Call.record?]

theorem filed_append_tail (calls : List Call) (limit : Nat) :
    filed (calls ++ [.tail limit]) = filed calls := by
  have hnone : [Call.tail limit].filterMap Call.record? = [] := rfl
  rw [filed, List.filterMap_append, hnone, List.append_nil]
  rfl

theorem seq_lt_length {calls : List Call} {entry : Entry} (h : entry ∈ filed calls) :
    entry.seq < (filed calls).length := by
  unfold filed at h ⊢
  obtain ⟨place, hplace, rfl⟩ := List.mem_mapIdx.mp h
  rw [List.length_mapIdx]
  exact hplace

theorem filed_ordered (calls : List Call) : (filed calls).Pairwise Entry.Before := by
  unfold filed
  rw [List.pairwise_iff_getElem]
  intro place later hplace hlater hlt
  rw [List.getElem_mapIdx, List.getElem_mapIdx]
  exact hlt

theorem sublist_of_ordered {listed all : List Entry} (hlisted : listed.Pairwise Entry.Before)
    (hall : all.Pairwise Entry.Before) (hmem : ∀ entry ∈ listed, entry ∈ all) :
    listed.Sublist all := by
  have hantisymm : Std.Antisymm Entry.Before := by
    constructor
    intro entry later hlt hgt
    exact absurd hgt (Nat.lt_asymm hlt)
  have hnodup : listed.Nodup := by
    apply hlisted.imp
    rintro entry later hlt rfl
    exact Nat.lt_irrefl _ hlt
  exact List.sublist_of_subperm_of_pairwise (List.subperm_of_subset hnodup hmem) hlisted hall

theorem seq_le_getLast {entries : List Entry} {entry last : Entry}
    (hordered : entries.Pairwise Entry.Before) (hlast : entries.getLast? = some last)
    (hentry : entry ∈ entries) : entry.seq ≤ last.seq := by
  obtain ⟨front, rfl⟩ := List.getLast?_eq_some_iff.mp hlast
  rcases List.mem_append.mp hentry with hfront | hend
  · apply Nat.le_of_lt
    exact (List.pairwise_append.mp hordered).2.2 entry hfront last (List.mem_singleton.mpr rfl)
  · rw [List.mem_singleton.mp hend]

namespace Ring
variable {ring : Ring} {record : Record} {query : Query} {all : List Entry}

theorem file_suffix (hring : ring.entries <:+ all) :
    (ring.file record).entries <:+ all ++ [record.entry ring.nextSeq] := by
  have hkept : (if ring.entries.length = ring.capacity then ring.entries.tail
      else ring.entries) <:+ all := by
    split
    · exact (List.tail_suffix _).trans hring
    · exact hring
  obtain ⟨gone, hgone⟩ := hkept
  exact ⟨gone, by rw [file, ← List.append_assoc, hgone]⟩

theorem mem_tail_entries {entry : Entry} (h : entry ∈ (ring.tail query).entries) :
    entry ∈ ring.entries ∧ query.sees entry ∧ query.isNew entry ∧ query.wants entry := by
  have hmatching := List.mem_of_mem_drop h
  rw [List.mem_filter, List.mem_filter, Bool.and_eq_true] at hmatching
  exact ⟨hmatching.1.1, hmatching.1.2, hmatching.2⟩

theorem mem_tail_of_ample {entry : Entry} (hample : (ring.tail query).matched ≤ query.limit)
    (hheld : entry ∈ ring.entries) (hsees : query.sees entry) (hnew : query.isNew entry)
    (hwants : query.wants entry) : entry ∈ (ring.tail query).entries := by
  unfold tail at hample ⊢
  dsimp only at hample ⊢
  rw [Nat.sub_eq_zero_of_le hample, List.drop_zero, List.mem_filter, List.mem_filter,
    Bool.and_eq_true]
  exact ⟨⟨hheld, hsees⟩, hnew, hwants⟩

theorem tail_entries_ordered (hordered : ring.entries.Pairwise Entry.Before) :
    (ring.tail query).entries.Pairwise Entry.Before := by
  apply List.Pairwise.sublist _ hordered
  exact (List.drop_sublist _ _).trans (List.filter_sublist.trans List.filter_sublist)

theorem seq_lt_nextSince {entry : Entry} (hordered : ring.entries.Pairwise Entry.Before)
    (hheld : entry ∈ ring.entries) (hsees : query.sees entry) :
    entry.seq < (ring.tail query).nextSince := by
  have hvisible : entry ∈ ring.entries.filter query.sees := List.mem_filter.mpr ⟨hheld, hsees⟩
  unfold tail
  dsimp only
  split
  case h_1 last hlast =>
    have hle := seq_le_getLast (hordered.sublist List.filter_sublist) hlast hvisible
    omega
  case h_2 hnone =>
    rw [List.getLast?_eq_none_iff.mp hnone] at hvisible
    exact absurd hvisible List.not_mem_nil

theorem nextSince_cases (ring : Ring) (query : Query) :
    ((ring.tail query).nextSince = query.since.getD 0 ∧
      ∀ entry ∈ ring.entries, query.sees entry = false) ∨
    ∃ entry ∈ ring.entries, query.sees entry ∧ (ring.tail query).nextSince = entry.seq + 1 := by
  unfold tail
  dsimp only
  split
  case h_1 last hlast =>
    have hmem := List.mem_filter.mp (List.mem_of_getLast? hlast)
    exact Or.inr ⟨last, hmem.1, hmem.2, rfl⟩
  case h_2 hnone =>
    apply Or.inl
    refine ⟨rfl, ?_⟩
    intro entry hentry
    rw [List.getLast?_eq_none_iff, List.filter_eq_nil_iff] at hnone
    exact Bool.eq_false_iff.mpr (hnone entry hentry)

/-- An entry goes only by being the oldest of a full ring. -/
theorem evicted_of_not_mem_file {entry : Entry} (hheld : entry ∈ ring.entries)
    (hgone : entry ∉ (ring.file record).entries) : ring.evicted = some entry := by
  have hkept : entry ∉ (if ring.entries.length = ring.capacity then ring.entries.tail
      else ring.entries) := fun hkept => hgone (List.mem_append_left _ hkept)
  unfold evicted
  split at hkept
  case isTrue hfull =>
    rw [if_pos hfull]
    cases hentries : ring.entries with
    | nil =>
      rw [hentries] at hheld
      exact absurd hheld List.not_mem_nil
    | cons oldest rest =>
      rw [hentries] at hheld hkept
      rcases List.mem_cons.mp hheld with rfl | hrest
      · rfl
      · exact absurd hrest hkept
  case isFalse => exact absurd hheld hkept

/-- A record the caller cannot see leaves its view as it was, unless its filing pushes
out one the caller could see. -/
theorem tail_file_of_unseen (hrecord : mayRead query.visible record.session = false)
    (hevicted : ∀ entry, ring.evicted = some entry → query.sees entry = false) :
    (ring.file record).tail query = ring.tail query := by
  have hkept : (if ring.entries.length = ring.capacity then ring.entries.tail
      else ring.entries).filter query.sees = ring.entries.filter query.sees := by
    unfold evicted at hevicted
    split
    case isTrue hfull =>
      rw [if_pos hfull] at hevicted
      cases hentries : ring.entries with
      | nil => rfl
      | cons oldest rest =>
        rw [hentries] at hevicted
        rw [List.tail_cons, List.filter_cons, hevicted oldest rfl, if_neg Bool.false_ne_true]
    case isFalse => rfl
  have hvisible : (ring.file record).entries.filter query.sees =
      ring.entries.filter query.sees := by
    unfold file
    dsimp only
    rw [List.filter_append, hkept, List.filter_cons]
    change ring.entries.filter query.sees ++
      (if mayRead query.visible record.session = true then _ else _) = _
    rw [hrecord, if_neg Bool.false_ne_true, List.filter_nil, List.append_nil]
  unfold tail
  rw [hvisible]
  rfl

end Ring

namespace Paging
variable {capacity : Nat} {filter : Filter} {calls : List Call} {paging : Paging}

def cursor (paging : Paging) : Nat := paging.since.getD 0

structure Follows (filter : Filter) (calls : List Call) (paging : Paging) : Prop where
  held : paging.ring.entries <:+ filed calls
  nextSeq : paging.ring.nextSeq = (filed calls).length
  /-- The cursor is one past a record the caller could see, or still at the start. -/
  cursorAt : paging.cursor = 0 ∨ ∃ entry ∈ filed calls,
    mayRead filter.visible entry.session = true ∧ paging.cursor = entry.seq + 1
  listedFiled : ∀ entry ∈ paging.listed, entry ∈ filed calls ∧ filter.accepts entry
  listedBelow : ∀ entry ∈ paging.listed, entry.seq < paging.cursor
  ordered : paging.listed.Pairwise Entry.Before
  cursorsBelow : ∀ page ∈ paging.pages, page.nextSince ≤ paging.cursor
  cursorsOrdered : (paging.pages.map Tail.nextSince).Pairwise (· ≤ ·)

namespace Follows

theorem start : Follows filter [] (Paging.start capacity) where
  held := List.suffix_refl _
  nextSeq := rfl
  cursorAt := Or.inl rfl
  listedFiled := by simp [listed, Paging.start]
  listedBelow := by simp [listed, Paging.start]
  ordered := List.Pairwise.nil
  cursorsBelow := by simp [Paging.start]
  cursorsOrdered := List.Pairwise.nil

theorem cursor_le (follows : Follows filter calls paging) :
    paging.cursor ≤ (filed calls).length := by
  cases follows.cursorAt with
  | inl hzero => omega
  | inr hseen =>
    obtain ⟨entry, hfiled, _, hcursor⟩ := hseen
    have hlt := seq_lt_length hfiled
    omega

theorem ringOrdered (follows : Follows filter calls paging) :
    paging.ring.entries.Pairwise Entry.Before :=
  (filed_ordered calls).sublist follows.held.sublist

theorem file (follows : Follows filter calls paging) (record : Record) :
    Follows filter (calls ++ [.file record]) (paging.step filter (.file record)) where
  held := by
    rw [filed_append_file, ← follows.nextSeq]
    exact Ring.file_suffix follows.held
  nextSeq := by
    rw [filed_append_file, List.length_append, ← follows.nextSeq]
    rfl
  cursorAt := by
    cases follows.cursorAt with
    | inl hzero => exact Or.inl hzero
    | inr hseen =>
      obtain ⟨entry, hfiled, hmay, hcursor⟩ := hseen
      refine Or.inr ⟨entry, ?_, hmay, hcursor⟩
      rw [filed_append_file]
      exact List.mem_append_left _ hfiled
  listedFiled := by
    intro entry hentry
    have hlisted := follows.listedFiled entry hentry
    rw [filed_append_file]
    exact ⟨List.mem_append_left _ hlisted.1, hlisted.2⟩
  listedBelow := follows.listedBelow
  ordered := follows.ordered
  cursorsBelow := follows.cursorsBelow
  cursorsOrdered := follows.cursorsOrdered

/-- The cursor does not go back: what is left of a visible record that was filed is at
the end of the ring. -/
theorem cursor_le_nextSince (follows : Follows filter calls paging) (limit : Nat) :
    paging.cursor ≤ (paging.ring.tail (filter.query paging.since limit)).nextSince := by
  rcases paging.ring.nextSince_cases (filter.query paging.since limit)
    with ⟨hsame, _⟩ | ⟨newest, hheld, hsees, hnext⟩
  · exact Nat.le_of_eq hsame.symm
  · rcases follows.cursorAt with hzero | ⟨entry, hfiled, hmay, hcursor⟩
    · omega
    · obtain ⟨gone, hgone⟩ := follows.held
      rw [← hgone] at hfiled
      rcases List.mem_append.mp hfiled with hold | hkept
      · have hordered := filed_ordered calls
        rw [← hgone] at hordered
        have hlt : entry.seq < newest.seq :=
          (List.pairwise_append.mp hordered).2.2 entry hold newest hheld
        omega
      · rw [hcursor]
        exact Ring.seq_lt_nextSince follows.ringOrdered hkept hmay

theorem tail (follows : Follows filter calls paging) (limit : Nat) :
    Follows filter (calls ++ [.tail limit]) (paging.step filter (.tail limit)) := by
  generalize hpage : paging.ring.tail (filter.query paging.since limit) = page
  have hforward : paging.cursor ≤ page.nextSince := by
    rw [← hpage]
    exact follows.cursor_le_nextSince limit
  have hstep : paging.step filter (.tail limit) =
      { paging with since := some page.nextSince, pages := paging.pages ++ [page] } := by
    rw [← hpage]
    rfl
  have hlisted : (paging.step filter (.tail limit)).listed = paging.listed ++ page.entries := by
    simp [hstep, listed]
  have hentries : ∀ entry ∈ page.entries, entry ∈ paging.ring.entries ∧
      filter.accepts entry ∧ paging.cursor ≤ entry.seq ∧ entry.seq < page.nextSince := by
    intro entry hentry
    rw [← hpage] at hentry ⊢
    obtain ⟨hheld, hsees, hnew, hwants⟩ := Ring.mem_tail_entries hentry
    refine ⟨hheld, ?_, ?_, Ring.seq_lt_nextSince follows.ringOrdered hheld hsees⟩
    · exact Bool.and_eq_true_iff.mpr ⟨hsees, hwants⟩
    · unfold cursor
      unfold Query.isNew Filter.query at hnew
      cases hsince : paging.since with
      | none => exact Nat.zero_le _
      | some since =>
        rw [hsince] at hnew
        exact of_decide_eq_true hnew
  constructor
  case held => rw [filed_append_tail, hstep]; exact follows.held
  case nextSeq => rw [filed_append_tail, hstep]; exact follows.nextSeq
  case cursorAt =>
    rw [filed_append_tail, hstep]
    change page.nextSince = 0 ∨ ∃ entry ∈ filed calls, _ ∧ page.nextSince = entry.seq + 1
    rcases paging.ring.nextSince_cases (filter.query paging.since limit)
      with ⟨hsame, _⟩ | ⟨newest, hheld, hsees, hnext⟩
    · rw [hpage] at hsame
      rw [hsame]
      exact follows.cursorAt
    · rw [hpage] at hnext
      exact Or.inr ⟨newest, follows.held.subset hheld, hsees, hnext⟩
  case listedFiled =>
    intro entry hentry
    rw [filed_append_tail]
    rw [hlisted] at hentry
    rcases List.mem_append.mp hentry with hold | hnew
    · exact follows.listedFiled entry hold
    · exact ⟨follows.held.subset (hentries entry hnew).1, (hentries entry hnew).2.1⟩
  case listedBelow =>
    intro entry hentry
    rw [hlisted] at hentry
    rw [hstep]
    change entry.seq < page.nextSince
    rcases List.mem_append.mp hentry with hold | hnew
    · exact Nat.lt_of_lt_of_le (follows.listedBelow entry hold) hforward
    · exact (hentries entry hnew).2.2.2
  case ordered =>
    rw [hlisted, List.pairwise_append]
    refine ⟨follows.ordered, ?_, ?_⟩
    · rw [← hpage]
      exact Ring.tail_entries_ordered follows.ringOrdered
    · intro entry hold later hnew
      exact Nat.lt_of_lt_of_le (follows.listedBelow entry hold) (hentries later hnew).2.2.1
  case cursorsBelow =>
    rw [hstep]
    intro other hother
    change other.nextSince ≤ page.nextSince
    rcases List.mem_append.mp hother with hold | hnew
    · exact Nat.le_trans (follows.cursorsBelow other hold) hforward
    · rw [List.mem_singleton.mp hnew]
  case cursorsOrdered =>
    rw [hstep]
    change ((paging.pages ++ [page]).map Tail.nextSince).Pairwise (· ≤ ·)
    rw [List.map_append, List.pairwise_append]
    refine ⟨follows.cursorsOrdered, List.pairwise_singleton _ _, ?_⟩
    intro earlier hearlier later hlater
    obtain ⟨other, hother, rfl⟩ := List.mem_map.mp hearlier
    rw [List.map_singleton, List.mem_singleton] at hlater
    rw [hlater]
    exact Nat.le_trans (follows.cursorsBelow other hother) hforward

theorem step (follows : Follows filter calls paging) (call : Call) :
    Follows filter (calls ++ [call]) (paging.step filter call) := by
  cases call with
  | file record => exact follows.file record
  | tail limit => exact follows.tail limit

theorem run (follows : Follows filter calls paging) (later : List Call) :
    Follows filter (calls ++ later) (Library.run (Paging.step filter) paging later) := by
  induction later generalizing calls paging with
  | nil =>
    rw [List.append_nil]
    exact follows
  | cons call later ih =>
    rw [List.append_cons]
    exact ih (follows.step call)

end Follows

theorem follows_run (capacity : Nat) (filter : Filter) (calls : List Call) :
    Follows filter calls (Library.run (Paging.step filter) (Paging.start capacity) calls) :=
  Follows.start.run calls

theorem pages_prefix_run (later : List Call) :
    paging.pages <+: (Library.run (Paging.step filter) paging later).pages := by
  induction later generalizing paging with
  | nil => exact List.prefix_refl _
  | cons call later ih =>
    refine List.IsPrefix.trans ?_ ih
    cases call with
    | file record => exact List.prefix_refl _
    | tail limit => exact List.prefix_append _ _

theorem since_run_files {between : List Call} (hfiles : ∀ call ∈ between, call.record?.isSome) :
    (Library.run (Paging.step filter) paging between).since = paging.since := by
  induction between generalizing paging with
  | nil => rfl
  | cons call between ih =>
    cases call with
    | file record =>
      rw [run_cons, ih fun later hlater => hfiles later (List.mem_cons_of_mem _ hlater)]
      rfl
    | tail limit => exact absurd (hfiles _ List.mem_cons_self) Bool.false_ne_true

/-- What is no longer held after some filings was pushed out by one of them. -/
theorem evicted_of_not_mem_run {between : List Call} {entry : Entry}
    (hfiles : ∀ call ∈ between, call.record?.isSome) (hheld : entry ∈ paging.ring.entries)
    (hgone : entry ∉ (Library.run (Paging.step filter) paging between).ring.entries) :
    ∃ earlier newer later, between = earlier ++ .file newer :: later ∧
      (Library.run (Paging.step filter) paging earlier).ring.evicted = some entry := by
  induction between generalizing paging with
  | nil => exact absurd hheld hgone
  | cons call between ih =>
    cases call with
    | tail limit => exact absurd (hfiles _ List.mem_cons_self) Bool.false_ne_true
    | file newer =>
      by_cases hkept : entry ∈ (paging.ring.file newer).entries
      · obtain ⟨earlier, pusher, later, hbetween, hevicted⟩ :=
          @ih (paging.step filter (.file newer))
            (fun call hcall => hfiles call (List.mem_cons_of_mem _ hcall)) hkept hgone
        exact ⟨.file newer :: earlier, pusher, later, by rw [hbetween, List.cons_append], hevicted⟩
      · exact ⟨[], newer, between, rfl, Ring.evicted_of_not_mem_file hheld hkept⟩

/-- A record gone by the first call after its filing was pushed out by a filing in between. -/
theorem evicted_of_not_held {front between : List Call} {record : Record}
    (hfiles : ∀ call ∈ between, call.record?.isSome)
    (hgone : record.entry (filed front).length ∉ (Library.run (Paging.step filter)
      (Paging.start capacity) (front ++ .file record :: between)).ring.entries) :
    ∃ earlier newer later, between = earlier ++ .file newer :: later ∧
      (Library.run (Paging.step filter) (Paging.start capacity)
        (front ++ .file record :: earlier)).ring.evicted =
          some (record.entry (filed front).length) := by
  have hrun (rest : List Call) : Library.run (Paging.step filter) (Paging.start capacity)
      (front ++ .file record :: rest) = Library.run (Paging.step filter)
        ((Library.run (Paging.step filter) (Paging.start capacity) front).step filter
          (.file record)) rest := by
    rw [run_append]
    rfl
  simp only [hrun] at hgone ⊢
  apply evicted_of_not_mem_run hfiles _ hgone
  -- A filing puts its own record at the end.
  rw [← (follows_run capacity filter front).nextSeq]
  exact List.mem_append_right _ (List.mem_singleton.mpr rfl)

/-- A record still held at the first call after its filing is in that call's answer. -/
theorem listed_of_held {front between back : List Call} {record : Record} {limit : Nat}
    (hfiles : ∀ call ∈ between, call.record?.isSome)
    (haccepts : filter.accepts (record.entry (filed front).length))
    (hample : Ample filter (Library.run (Paging.step filter) (Paging.start capacity)
      (front ++ .file record :: between)) (.tail limit))
    (hheld : record.entry (filed front).length ∈ (Library.run (Paging.step filter)
      (Paging.start capacity) (front ++ .file record :: between)).ring.entries) :
    record.entry (filed front).length ∈ (Library.run (Paging.step filter)
      (Paging.start capacity) (front ++ .file record :: between ++ .tail limit :: back)).listed := by
  generalize hat : Library.run (Paging.step filter) (Paging.start capacity)
    (front ++ .file record :: between) = paging at hample hheld
  have hsince : paging.cursor ≤ (filed front).length := by
    have hcursor : paging.cursor = (Library.run (Paging.step filter)
        (Paging.start capacity) front).cursor := by
      unfold cursor
      rw [← hat, run, List.foldl_append]
      apply congrArg (Option.getD · 0)
      change (Library.run (Paging.step filter) _ (.file record :: between)).since = _
      apply since_run_files
      intro call hcall
      rcases List.mem_cons.mp hcall with rfl | hbetween
      · rfl
      · exact hfiles call hbetween
    rw [hcursor]
    exact (follows_run capacity filter front).cursor_le
  have hnew : (filter.query paging.since limit).isNew (record.entry (filed front).length) := by
    unfold Query.isNew Filter.query
    unfold cursor at hsince
    cases hcursor : paging.since with
    | none => rfl
    | some since =>
      rw [hcursor] at hsince
      exact decide_eq_true hsince
  have haccepts := Bool.and_eq_true_iff.mp haccepts
  have hpage := Ring.mem_tail_of_ample hample hheld haccepts.1 hnew haccepts.2
  have hrun : Library.run (Paging.step filter) (Paging.start capacity)
      (front ++ .file record :: between ++ .tail limit :: back) =
        Library.run (Paging.step filter) (paging.step filter (.tail limit)) back := by
    rw [← hat, run, List.foldl_append]
    rfl
  rw [hrun]
  apply List.mem_flatMap.mpr
  refine ⟨_, (pages_prefix_run back).subset ?_, hpage⟩
  exact List.mem_append_right _ (List.mem_singleton.mpr rfl)

end Paging

/-- Pages under eviction.  Records of any size and number are filed between the calls of
a caller that passes on each cursor and leaves room for every match. -/
theorem paging_exact (capacity : Nat) (filter : Filter) (calls : List Call)
    (hample : ∀ visit ∈ visits (Paging.step filter) (Paging.start capacity) calls,
      Paging.Ample filter visit.1 visit.2) :
    let paging := run (Paging.step filter) (Paging.start capacity) calls
    -- at most once each, in the order of filing
    paging.listed.Sublist ((filed calls).filter filter.accepts) ∧
    (filed calls).Nodup ∧
    -- missing only what a later filing pushed out of the full ring before the first call
    (∀ front record between limit back,
      calls = front ++ .file record :: between ++ .tail limit :: back →
      (∀ call ∈ between, call.record?.isSome) →
      filter.accepts (record.entry (filed front).length) →
      record.entry (filed front).length ∉ paging.listed →
      record.entry (filed front).length ∉ (run (Paging.step filter) (Paging.start capacity)
        (front ++ .file record :: between)).ring.entries ∧
      ∃ earlier newer later, between = earlier ++ .file newer :: later ∧
        (run (Paging.step filter) (Paging.start capacity)
          (front ++ .file record :: earlier)).ring.evicted =
            some (record.entry (filed front).length)) ∧
    (paging.pages.map Tail.nextSince).Pairwise (· ≤ ·) ∧
    -- what the caller cannot see changes nothing it is told
    (∀ (query : Query) (record : Record), mayRead query.visible record.session = false →
      (∀ entry, paging.ring.evicted = some entry → query.sees entry = false) →
      (paging.ring.file record).tail query = paging.ring.tail query) := by
  have hfollows := Paging.follows_run capacity filter calls
  refine ⟨?_, ?_, ?_, hfollows.cursorsOrdered, ?_⟩
  · apply sublist_of_ordered hfollows.ordered
    · exact (filed_ordered calls).sublist List.filter_sublist
    · intro entry hentry
      exact List.mem_filter.mpr (hfollows.listedFiled entry hentry)
  · apply (filed_ordered calls).imp
    rintro entry later hlt rfl
    exact Nat.lt_irrefl _ hlt
  · rintro front record between limit back rfl hfiles haccepts hmissing
    have hgone : record.entry (filed front).length ∉ (run (Paging.step filter)
        (Paging.start capacity) (front ++ .file record :: between)).ring.entries := by
      intro hheld
      apply hmissing
      apply Paging.listed_of_held hfiles haccepts _ hheld
      apply hample (_, .tail limit)
      rw [visits_append]
      exact List.mem_append_right _ List.mem_cons_self
    exact ⟨hgone, Paging.evicted_of_not_held hfiles hgone⟩
  · intro query record hrecord hevicted
    exact Ring.tail_file_of_unseen hrecord hevicted

def attached : Record := ⟨.info, 0, "windbg_mcp::engine", none, "attached"⟩

def overtaken : List Call :=
  [.file attached, .tail 5, .file attached, .file attached, .tail 5]

def everything : Filter := ⟨none, .trace, none⟩

/-- The first and the third record are listed; the third pushed the second out. -/
theorem paging_exact_overtaken :
    (run (Paging.step everything) (Paging.start 1) overtaken).listed =
      [attached.entry 0, attached.entry 2] ∧
    (run (Paging.step everything) (Paging.start 1) (overtaken.take 3)).ring.evicted =
      some (attached.entry 1) := by
  refine ⟨by decide, ?_⟩
  obtain ⟨_, earlier, newer, later, hbetween, hevicted⟩ :=
    (paging_exact 1 everything overtaken (by decide)).2.2.1 (overtaken.take 2) attached
      [.file attached] 5 [] rfl (by decide) (by decide) (by decide)
  cases earlier with
  | nil => exact hevicted
  | cons call earlier =>
    have hlength := congrArg List.length hbetween
    simp at hlength

end WindbgMcp.LogBridge
