import Mathlib.Algebra.Order.Ring.Int
import Mathlib.Data.List.Pairwise
import WindbgMcp.Cast.Frame
import WindbgMcp.Library.StableSort

/-! The order and the times a transcript is played in (`cast.rs`).  Milliseconds are natural
numbers: the sums are taken to stay below 2^64. -/
namespace WindbgMcp.Cast
open WindbgMcp.Library

def Event.isStart : Event → Bool
  | .start .. => true
  | _ => false

instance : Inhabited Entry := ⟨⟨0, 0, "", 0, .shutdown 0⟩⟩

/-- `records[index]`. -/
def entryAt (records : List Entry) (index : Nat) : Entry := records.getD index default

def daysFromCivil (y : Int) (m d : Nat) : Int :=
  let y := y - if m ≤ 2 then 1 else 0
  let era := y / 400
  let yoe := y - era * 400
  let mp : Int := if 2 < m then m - 3 else m + 9
  let doy := (153 * mp + 2) / 5 + d - 1
  let doe := yoe * 365 + yoe / 4 - yoe / 100 + doy
  (era * 146097 + doe - 719468).bmod (2 ^ 64)

def stripLast (suffix : Char) (text : String) : Option String :=
  if text.toList.getLast? = some suffix then some (String.ofList text.toList.dropLast) else none

/-- `unix_seconds`: a stamp of this server's own shape, as seconds since the epoch.  The
year's text holds no minus sign, so it is read as an unsigned one. -/
def unixSeconds (stamp : String) : Option Nat := do
  let (date, rest) ← Text.splitOnce 'T' stamp
  let time ← stripLast 'Z' rest
  let (year, behind) ← Text.splitOnce '-' date
  let (month, day) ← Text.splitOnce '-' behind
  let y ← Text.parseUnsigned (2 ^ 63 - 1) year
  let m ← Text.parseUnsigned (2 ^ 32 - 1) month
  let d ← Text.parseUnsigned (2 ^ 32 - 1) day
  let clock := Text.split (· = ':') time
  let hh ← clock[0]?.bind (Text.parseUnsigned (2 ^ 64 - 1))
  let mm ← clock[1]?.bind (Text.parseUnsigned (2 ^ 64 - 1))
  let seconds ← clock[2]?
  let ss ← (Text.split (· = '.') seconds)[0]?.bind (Text.parseUnsigned (2 ^ 64 - 1))
  guard (1 ≤ m ∧ m ≤ 12 ∧ 1 ≤ d ∧ d ≤ 31 ∧ hh ≤ 23 ∧ mm ≤ 59 ∧ ss ≤ 60)
  let seconds := daysFromCivil y m d * 86400
  guard (0 ≤ seconds ∧ seconds < 2 ^ 63)
  some (seconds.toNat + (hh * 3600 + mm * 60 + ss))

def runGap : Nat := 1000

def gap (before after : Entry) : Nat :=
  let measured := do
    let after ← unixSeconds after.stamp
    let before ← unixSeconds before.stamp
    guard (before ≤ after)
    let gap := min ((after - before) * 1000) (2 ^ 64 - 1)
    guard (0 < gap)
    some gap
  measured.getD runGap

/-- A record's index behind its run's current segment, or a segment of its own where there
is none or the record is a start. -/
def place (record : Entry) (index : Nat) (segments : List (List Nat)) : List (List Nat) :=
  if segments = [] ∨ record.event.isStart then segments ++ [[index]]
  else segments.dropLast ++ [segments.getLast?.getD [] ++ [index]]

/-- `grouped` and `order` in one list: the segments of each run, the runs in the order they
first appear in. -/
def fileRecord (grouped : List (Nat × List (List Nat))) (filed : Entry × Nat) :
    List (Nat × List (List Nat)) :=
  match grouped with
  | [] => [(filed.1.run, place filed.1 filed.2 [])]
  | (run, segments) :: rest =>
    if run = filed.1.run then (run, place filed.1 filed.2 segments) :: rest
    else (run, segments) :: fileRecord rest filed

def firstIndex (segment : List Nat) : Nat := segment.head?.getD (2 ^ 64 - 1)

section
variable (records : List Entry)

def grouped : List (Nat × List (List Nat)) := records.zipIdx.foldl fileRecord []

/-- The segments in the order of their first records, each by `seq`. -/
def runs : List (List Nat) :=
  (((grouped records).flatMap Prod.snd).insertionSort
    fun a b => firstIndex a ≤ firstIndex b).map fun segment =>
      segment.insertionSort fun a b => (entryAt records a).seq ≤ (entryAt records b).seq

def playRun (start : Nat) : List Nat → Nat → List (Nat × Nat)
  | [], _ => []
  | index :: run, last =>
    let last := max last (start + (entryAt records index).monoMs)
    (index, last) :: playRun start run last

def playRuns : List (List Nat) → Nat → Option Nat → List (Nat × Nat)
  | [], _, _ => []
  | run :: rest, base, previous =>
    match run.head? with
    | none => playRuns rest base previous
    | some first =>
      let start := previous.elim 0 fun previous =>
        base + gap (entryAt records previous) (entryAt records first)
      let played := playRun records start run start
      played ++ playRuns rest ((played.getLast?.map Prod.snd).getD start) run.getLast?

def timeline : List (Nat × Nat) := playRuns records (runs records) 0 none

end

/-- How many of the first `count` records are starts of the run. -/
def startsOf (records : List Entry) (run count : Nat) : Nat :=
  (records.take count).countP fun record => record.run = run ∧ record.event.isStart

def SameSegment (records : List Entry) (i j : Nat) : Prop :=
  (entryAt records i).run = (entryAt records j).run ∧
    startsOf records (entryAt records i).run (i + 1) =
      startsOf records (entryAt records j).run (j + 1)

section Grouping
variable {records : List Entry}

theorem SameSegment.refl (i : Nat) : SameSegment records i i := ⟨rfl, rfl⟩

theorem SameSegment.symm {i j : Nat} (h : SameSegment records i j) : SameSegment records j i :=
  ⟨h.1.symm, h.2.symm⟩

theorem SameSegment.trans {i j k : Nat} (h : SameSegment records i j)
    (hnext : SameSegment records j k) : SameSegment records i k :=
  ⟨h.1.trans hnext.1, h.2.trans hnext.2⟩

theorem startsOf_mono {run count later : Nat} (h : count ≤ later) :
    startsOf records run count ≤ startsOf records run later := by
  unfold startsOf
  exact (List.take_sublist_take_left h).countP_le

theorem startsOf_succ {index run : Nat} (h : index < records.length) :
    startsOf records run (index + 1) = startsOf records run index +
      if (entryAt records index).run = run ∧ (entryAt records index).event.isStart then 1
      else 0 := by
  have hentry : entryAt records index = records[index] := by
    unfold entryAt
    rw [List.getD_eq_getElem?_getD, List.getElem?_eq_getElem h, Option.getD_some]
  unfold startsOf
  rw [List.take_add_one, List.getElem?_eq_getElem h, List.countP_append, hentry]
  simp [List.countP_cons]

/-- The segments of a run among the first `count` records: its indices in order, cut where
its starts stand. -/
structure Segments (records : List Entry) (count run : Nat) (segments : List (List Nat)) :
    Prop where
  indices : segments.flatten =
    (List.range count).filter fun index => (entryAt records index).run = run
  occupied : ∀ segment ∈ segments, segment ≠ []
  alike : ∀ segment ∈ segments, ∀ i ∈ segment, ∀ j ∈ segment,
    startsOf records run (i + 1) = startsOf records run (j + 1)
  apart : segments.Pairwise fun segment later => ∀ i ∈ segment, ∀ j ∈ later,
    startsOf records run (i + 1) < startsOf records run (j + 1)
  current : ∀ segment ∈ segments.getLast?, ∀ i ∈ segment,
    startsOf records run (i + 1) = startsOf records run count

variable {count run : Nat} {segments : List (List Nat)}

theorem Segments.mem_iff (h : Segments records count run segments) {index : Nat} :
    (∃ segment ∈ segments, index ∈ segment) ↔
      index < count ∧ (entryAt records index).run = run := by
  rw [← List.mem_flatten, h.indices, List.mem_filter, List.mem_range, decide_eq_true_eq]

theorem segments_nil (h : ∀ index < count, (entryAt records index).run ≠ run) :
    Segments records count run [] where
  indices := by
    rw [List.flatten_nil, eq_comm, List.filter_eq_nil_iff]
    intro index hindex
    rw [decide_eq_true_eq]
    exact h index (List.mem_range.mp hindex)
  occupied _ hsegment := absurd hsegment List.not_mem_nil
  alike _ hsegment := absurd hsegment List.not_mem_nil
  apart := List.Pairwise.nil
  current segment hsegment := by cases hsegment

theorem Segments.skip (h : Segments records count run segments) (hcount : count < records.length)
    (hother : (entryAt records count).run ≠ run) : Segments records (count + 1) run segments where
  indices := by
    rw [h.indices, List.range_succ, List.filter_append, List.filter_cons_of_neg (by simpa),
      List.filter_nil, List.append_nil]
  occupied := h.occupied
  alike := h.alike
  apart := h.apart
  current segment hsegment i hi := by
    rw [startsOf_succ hcount, if_neg fun h => hother h.1]
    exact h.current segment hsegment i hi

theorem Segments.indices_next (h : Segments records count run segments)
    (hrun : (entryAt records count).run = run) :
    (List.range (count + 1)).filter (fun index => (entryAt records index).run = run) =
      segments.flatten ++ [count] := by
  rw [h.indices, List.range_succ, List.filter_append,
    List.filter_cons_of_pos (by simpa using hrun), List.filter_nil]

theorem Segments.opened (h : Segments records count run segments) (hcount : count < records.length)
    (hrun : (entryAt records count).run = run)
    (hopens : segments = [] ∨ (entryAt records count).event.isStart) :
    Segments records (count + 1) run (segments ++ [[count]]) where
  indices := by rw [h.indices_next hrun, List.flatten_append, List.flatten_singleton]
  occupied := by
    intro segment hsegment
    rcases List.mem_append.mp hsegment with hold | hnew
    · exact h.occupied segment hold
    · rw [List.mem_singleton.mp hnew]
      exact List.cons_ne_nil count []
  alike := by
    intro segment hsegment i hi j hj
    rcases List.mem_append.mp hsegment with hold | hnew
    · exact h.alike segment hold i hi j hj
    · rw [List.mem_singleton.mp hnew, List.mem_singleton] at hi hj
      rw [hi, hj]
  apart := by
    rw [List.pairwise_append]
    refine ⟨h.apart, List.pairwise_singleton _ _, ?_⟩
    intro segment hsegment later hnew i hi j hj
    rw [List.mem_singleton.mp hnew, List.mem_singleton] at hj
    rw [hj]
    rcases hopens with hnone | hstart
    · rw [hnone] at hsegment
      cases hsegment
    · -- Every earlier record of the run has fewer starts up to it.
      have hle : startsOf records run (i + 1) ≤ startsOf records run count :=
        startsOf_mono (h.mem_iff.mp ⟨segment, hsegment, hi⟩).1
      rw [startsOf_succ hcount, if_pos ⟨hrun, hstart⟩]
      omega
  current := by
    intro segment hsegment i hi
    rw [List.getLast?_concat, Option.mem_some_iff] at hsegment
    rw [← hsegment, List.mem_singleton] at hi
    rw [hi]

theorem Segments.continued {front : List (List Nat)} {last : List Nat}
    (h : Segments records count run (front ++ [last])) (hcount : count < records.length)
    (hrun : (entryAt records count).run = run)
    (hstart : ¬(entryAt records count).event.isStart) :
    Segments records (count + 1) run (front ++ [last ++ [count]]) := by
  have hsame : startsOf records run (count + 1) = startsOf records run count := by
    rw [startsOf_succ hcount, if_neg fun h => hstart h.2, Nat.add_zero]
  have hlast : ∀ i ∈ last ++ [count],
      startsOf records run (i + 1) = startsOf records run count := by
    intro i hi
    rcases List.mem_append.mp hi with hi | hi
    · exact h.current last List.getLast?_concat i hi
    · rw [List.mem_singleton.mp hi, hsame]
  have hmember : last ∈ front ++ [last] := List.mem_append_right front List.mem_cons_self
  constructor
  · rw [h.indices_next hrun, List.flatten_append, List.flatten_append, List.flatten_singleton,
      List.flatten_singleton, List.append_assoc]
  · intro segment hsegment
    rcases List.mem_append.mp hsegment with hold | hnew
    · exact h.occupied segment (List.mem_append_left _ hold)
    · rw [List.mem_singleton.mp hnew]
      exact List.append_ne_nil_of_right_ne_nil last (List.cons_ne_nil count [])
  · intro segment hsegment
    rcases List.mem_append.mp hsegment with hold | hnew
    · exact h.alike segment (List.mem_append_left _ hold)
    · rw [List.mem_singleton.mp hnew]
      intro i hi j hj
      rw [hlast i hi, hlast j hj]
  · obtain ⟨hfront, -, hcross⟩ := List.pairwise_append.mp h.apart
    rw [List.pairwise_append]
    refine ⟨hfront, List.pairwise_singleton _ _, ?_⟩
    intro segment hsegment later hnew i hi j hj
    rw [List.mem_singleton.mp hnew] at hj
    obtain ⟨member, hmem⟩ := List.exists_mem_of_ne_nil last (h.occupied last hmember)
    have hlt := hcross segment hsegment last List.mem_cons_self i hi member hmem
    rwa [hlast member (List.mem_append_left _ hmem), ← hlast j hj] at hlt
  · intro segment hsegment i hi
    rw [List.getLast?_concat, Option.mem_some_iff] at hsegment
    rw [← hsegment] at hi
    rw [hsame, hlast i hi]

theorem Segments.place (h : Segments records count run segments) (hcount : count < records.length)
    (hrun : (entryAt records count).run = run) :
    Segments records (count + 1) run (place (entryAt records count) count segments) := by
  unfold Cast.place
  split
  · rename_i hopens
    exact h.opened hcount hrun hopens
  · rename_i hcontinues
    push Not at hcontinues
    obtain ⟨hsome, hstart⟩ := hcontinues
    obtain ⟨front, last, rfl⟩ : ∃ front last, segments = front ++ [last] :=
      ⟨_, _, (List.dropLast_append_getLast hsome).symm⟩
    rw [List.dropLast_concat, List.getLast?_concat, Option.getD_some]
    exact h.continued hcount hrun (by simpa using hstart)

/-- The groups of the first `count` records: one for each run seen, with its segments. -/
structure Grouped (records : List Entry) (count : Nat) (groups : List (Nat × List (List Nat))) :
    Prop where
  once : (groups.map Prod.fst).Nodup
  covers : ∀ index < count, (entryAt records index).run ∈ groups.map Prod.fst
  segments : ∀ group ∈ groups, Segments records count group.1 group.2

theorem keys_fileRecord (groups : List (Nat × List (List Nat))) (filed : Entry × Nat) :
    (fileRecord groups filed).map Prod.fst =
      if filed.1.run ∈ groups.map Prod.fst then groups.map Prod.fst
      else groups.map Prod.fst ++ [filed.1.run] := by
  induction groups with
  | nil => rfl
  | cons group groups ih =>
    unfold fileRecord
    split
    case isTrue hsame => simp [hsame]
    case isFalse hother =>
      simp only [List.map_cons, ih, List.mem_cons, Ne.symm hother, false_or]
      split <;> rfl

theorem segments_fileRecord {groups : List (Nat × List (List Nat))}
    (honce : (groups.map Prod.fst).Nodup) (hcount : count < records.length)
    (hsegments : ∀ group ∈ groups, Segments records count group.1 group.2)
    (hnew : (entryAt records count).run ∉ groups.map Prod.fst →
      ∀ index < count, (entryAt records index).run ≠ (entryAt records count).run) :
    ∀ group ∈ fileRecord groups (entryAt records count, count),
      Segments records (count + 1) group.1 group.2 := by
  induction groups with
  | nil =>
    intro group hgroup
    rw [fileRecord, List.mem_singleton] at hgroup
    rw [hgroup]
    exact (segments_nil (hnew List.not_mem_nil)).place hcount rfl
  | cons first groups ih =>
    obtain ⟨run, segments⟩ := first
    rw [List.map_cons, List.nodup_cons] at honce
    have hfirst := hsegments _ List.mem_cons_self
    have hrest := fun group hgroup => hsegments group (List.mem_cons_of_mem _ hgroup)
    intro group hgroup
    rw [fileRecord] at hgroup
    split at hgroup
    · rename_i hsame
      cases hgroup with
      | head => exact hfirst.place hcount hsame.symm
      | tail _ hgroup =>
        apply (hrest group hgroup).skip hcount
        intro hrun
        have hkey : group.1 ∈ groups.map Prod.fst := List.mem_map_of_mem hgroup
        rw [← hrun, ← hsame] at hkey
        exact honce.1 hkey
    · rename_i hother
      cases hgroup with
      | head => exact hfirst.skip hcount (Ne.symm hother)
      | tail _ hgroup =>
        apply ih honce.2 hrest _ group hgroup
        intro hout
        apply hnew
        rw [List.map_cons, List.mem_cons, not_or]
        exact ⟨Ne.symm hother, hout⟩

theorem grouped_take {count : Nat} (hcount : count ≤ records.length) :
    Grouped records count ((records.zipIdx.take count).foldl fileRecord []) := by
  induction count with
  | zero =>
    constructor
    · exact List.nodup_nil
    · intro index hindex
      omega
    · exact fun group hgroup => absurd hgroup List.not_mem_nil
  | succ count ih =>
    have hlt : count < records.length := hcount
    obtain ⟨honce, hcovers, hsegments⟩ := ih (by omega)
    have hfiled : records.zipIdx[count]? = some (entryAt records count, count) := by
      rw [List.getElem?_zipIdx, List.getElem?_eq_getElem hlt]
      unfold entryAt
      rw [List.getD_eq_getElem?_getD, List.getElem?_eq_getElem hlt]
      simp
    rw [List.take_add_one, hfiled, List.foldl_append]
    generalize (records.zipIdx.take count).foldl fileRecord [] = groups at *
    have hkeys := keys_fileRecord groups (entryAt records count, count)
    dsimp only at hkeys
    constructor
    · change ((fileRecord groups (entryAt records count, count)).map Prod.fst).Nodup
      rw [hkeys]
      split
      · exact honce
      · rename_i hfresh
        apply List.Nodup.append honce (List.nodup_singleton _)
        intro key hkey hrun
        rw [List.mem_singleton] at hrun
        exact hfresh (hrun ▸ hkey)
    · intro index hindex
      change _ ∈ (fileRecord groups (entryAt records count, count)).map Prod.fst
      rw [hkeys]
      have hcases : index < count ∨ index = count := by omega
      split
      · rename_i hknown
        rcases hcases with hindex | rfl
        · exact hcovers index hindex
        · exact hknown
      · rcases hcases with hindex | rfl
        · exact List.mem_append_left _ (hcovers index hindex)
        · exact List.mem_append_right _ List.mem_cons_self
    · apply segments_fileRecord honce hlt hsegments
      intro hfresh index hindex hrun
      exact hfresh (hrun ▸ hcovers index hindex)

theorem grouped_spec (records : List Entry) :
    Grouped records records.length (grouped records) := by
  have hall := grouped_take (le_refl records.length)
  rwa [List.take_of_length_le (by rw [List.length_zipIdx])] at hall

end Grouping

section Sorting
variable {records : List Entry}

/-- A transcript cut into its segments, in any order. -/
structure Cut (records : List Entry) (segments : List (List Nat)) : Prop where
  once : segments.flatten.Perm (List.range records.length)
  occupied : ∀ segment ∈ segments, segment ≠ []
  ascending : ∀ segment ∈ segments, segment.Pairwise (· < ·)
  alike : ∀ segment ∈ segments, ∀ i ∈ segment, ∀ j ∈ segment, SameSegment records i j
  apart : segments.Pairwise fun segment later =>
    ∀ i ∈ segment, ∀ j ∈ later, ¬SameSegment records i j

theorem flatten_segments (groups : List (Nat × List (List Nat))) :
    (groups.flatMap Prod.snd).flatten = groups.flatMap fun group => group.2.flatten := by
  induction groups with
  | nil => rfl
  | cons group groups ih =>
    rw [List.flatMap_cons, List.flatMap_cons, List.flatten_append, ih]

theorem cut_grouped (records : List Entry) :
    Cut records ((grouped records).flatMap Prod.snd) := by
  obtain ⟨honce, hcovers, hsegments⟩ := grouped_spec records
  have hkeys : (grouped records).Pairwise fun group later => group.1 ≠ later.1 :=
    List.pairwise_map.mp honce
  constructor
  · rw [flatten_segments, List.perm_ext_iff_of_nodup _ List.nodup_range]
    · intro index
      rw [List.mem_flatMap, List.mem_range]
      constructor
      · intro ⟨group, hgroup, hindex⟩
        rw [(hsegments group hgroup).indices, List.mem_filter, List.mem_range] at hindex
        exact hindex.1
      · intro hindex
        obtain ⟨group, hgroup, hrun⟩ := List.mem_map.mp (hcovers index hindex)
        refine ⟨group, hgroup, ?_⟩
        rw [(hsegments group hgroup).indices, List.mem_filter, List.mem_range, hrun]
        exact ⟨hindex, by simp⟩
    · rw [List.nodup_flatMap]
      constructor
      · intro group hgroup
        rw [(hsegments group hgroup).indices]
        exact List.nodup_range.filter _
      · apply hkeys.imp_of_mem
        intro group later hgroup hlater hne index hindex hother
        dsimp only at hindex hother
        rw [(hsegments group hgroup).indices, List.mem_filter, decide_eq_true_eq] at hindex
        rw [(hsegments later hlater).indices, List.mem_filter, decide_eq_true_eq] at hother
        exact hne (hindex.2.symm.trans hother.2)
  · intro segment hsegment
    obtain ⟨group, hgroup, hmem⟩ := List.mem_flatMap.mp hsegment
    exact (hsegments group hgroup).occupied segment hmem
  · intro segment hsegment
    obtain ⟨group, hgroup, hmem⟩ := List.mem_flatMap.mp hsegment
    have hpart := List.sublist_flatten_of_mem hmem
    rw [(hsegments group hgroup).indices] at hpart
    exact (List.pairwise_lt_range.filter _).sublist hpart
  · intro segment hsegment i hi j hj
    obtain ⟨group, hgroup, hmem⟩ := List.mem_flatMap.mp hsegment
    have hspec := hsegments group hgroup
    have hirun := (hspec.mem_iff.mp ⟨segment, hmem, hi⟩).2
    have hjrun := (hspec.mem_iff.mp ⟨segment, hmem, hj⟩).2
    unfold SameSegment
    rw [hirun, hjrun]
    exact ⟨rfl, hspec.alike segment hmem i hi j hj⟩
  · rw [List.pairwise_flatMap]
    constructor
    · intro group hgroup
      have hspec := hsegments group hgroup
      apply hspec.apart.imp_of_mem
      intro segment later hsegment hlater hlt i hi j hj hsame
      have hirun := (hspec.mem_iff.mp ⟨segment, hsegment, hi⟩).2
      have hjrun := (hspec.mem_iff.mp ⟨later, hlater, hj⟩).2
      have heq := hsame.2
      rw [hirun, hjrun] at heq
      have hless := hlt i hi j hj
      omega
    · apply hkeys.imp_of_mem
      intro group later hgroup hlater hne segment hsegment other hother i hi j hj hsame
      have hirun := ((hsegments group hgroup).mem_iff.mp ⟨segment, hsegment, hi⟩).2
      have hjrun := ((hsegments later hlater).mem_iff.mp ⟨other, hother, hj⟩).2
      exact hne (hirun.symm.trans (hsame.1.trans hjrun))

theorem Cut.perm {segments others : List (List Nat)} (h : Cut records segments)
    (hperm : others.Perm segments) : Cut records others where
  once := hperm.flatten.trans h.once
  occupied segment hsegment := h.occupied segment (hperm.subset hsegment)
  ascending segment hsegment := h.ascending segment (hperm.subset hsegment)
  alike segment hsegment := h.alike segment (hperm.subset hsegment)
  apart := by
    apply (hperm.pairwise_iff _).mpr h.apart
    intro segment later hapart j hj i hi hsame
    exact hapart i hi j hj hsame.symm

theorem firstIndex_spec {segment : List Nat} (hoccupied : segment ≠ [])
    (hascending : segment.Pairwise (· < ·)) :
    firstIndex segment ∈ segment ∧ ∀ index ∈ segment, firstIndex segment ≤ index := by
  obtain ⟨first, rest, rfl⟩ := List.exists_cons_of_ne_nil hoccupied
  refine ⟨List.mem_cons_self, ?_⟩
  intro index hindex
  cases hindex with
  | head => exact le_refl _
  | tail _ hindex => exact le_of_lt ((List.pairwise_cons.mp hascending).1 index hindex)

/-- By `seq`, and by the place in the file where that is the same. -/
def Before (records : List Entry) (i j : Nat) : Prop :=
  (entryAt records i).seq < (entryAt records j).seq ∨
    (entryAt records i).seq = (entryAt records j).seq ∧ i < j

/-- The segment of `i` has a record before all of those of the segment of `j`. -/
def Leads (records : List Entry) (i j : Nat) : Prop :=
  ∃ first < records.length, SameSegment records first i ∧
    ∀ other < records.length, SameSegment records other j → first < other

/-- The segments in the order they are played in. -/
structure Ordered (records : List Entry) (runs : List (List Nat)) : Prop where
  once : runs.flatten.Perm (List.range records.length)
  occupied : ∀ run ∈ runs, run ≠ []
  sorted : ∀ run ∈ runs, run.Pairwise (Before records)
  alike : ∀ run ∈ runs, ∀ i ∈ run, ∀ j ∈ run, SameSegment records i j
  after : runs.Pairwise fun run later =>
    ∀ i ∈ run, ∀ j ∈ later, ¬SameSegment records i j ∧ Leads records i j

theorem Cut.mem_of_same {segments : List (List Nat)} (h : Cut records segments)
    {segment : List Nat} (hsegment : segment ∈ segments) {i j : Nat} (hi : i ∈ segment)
    (hj : j < records.length) (hsame : SameSegment records j i) : j ∈ segment := by
  have hmem : j ∈ segments.flatten := h.once.symm.subset (List.mem_range.mpr hj)
  obtain ⟨other, hother, hin⟩ := List.mem_flatten.mp hmem
  by_contra hout
  have hne : other ≠ segment := fun heq => hout (heq ▸ hin)
  have hsymm : Std.Symm fun segment later : List Nat =>
      ∀ i ∈ segment, ∀ j ∈ later, ¬SameSegment records i j := by
    constructor
    intro segment later hapart j hj i hi hsame
    exact hapart i hi j hj hsame.symm
  exact h.apart.forall hother hsegment hne j hin i hi hsame

theorem Cut.leads {segments : List (List Nat)} (h : Cut records segments)
    (hsorted : segments.Pairwise fun a b => firstIndex a ≤ firstIndex b) :
    segments.Pairwise fun segment later =>
      ∀ i ∈ segment, ∀ j ∈ later, ¬SameSegment records i j ∧ Leads records i j := by
  apply (hsorted.and h.apart).imp_of_mem
  intro segment later hsegment hlater ⟨hle, hapart⟩ i hi j hj
  refine ⟨hapart i hi j hj, ?_⟩
  obtain ⟨hfirst, -⟩ := firstIndex_spec (h.occupied segment hsegment) (h.ascending segment hsegment)
  obtain ⟨hother, hleast⟩ := firstIndex_spec (h.occupied later hlater) (h.ascending later hlater)
  have hbound : firstIndex segment < records.length := by
    rw [← List.mem_range]
    exact h.once.subset (List.mem_flatten.mpr ⟨segment, hsegment, hfirst⟩)
  refine ⟨firstIndex segment, hbound, h.alike segment hsegment _ hfirst i hi, ?_⟩
  intro other hrange hsame
  have hin := hleast other (h.mem_of_same hlater hj hrange hsame)
  have hne : firstIndex segment ≠ firstIndex later := by
    intro heq
    apply hapart _ hfirst _ hother
    rw [heq]
    exact SameSegment.refl _
  omega

theorem flatten_map_perm {α : Type} {f : List α → List α} (h : ∀ xs, (f xs).Perm xs)
    (lists : List (List α)) : (lists.map f).flatten.Perm lists.flatten := by
  induction lists with
  | nil => exact List.Perm.refl _
  | cons xs lists ih =>
    rw [List.map_cons, List.flatten_cons, List.flatten_cons]
    exact (h xs).append ih

theorem runs_spec (records : List Entry) : Ordered records (runs records) := by
  have hperm := List.perm_insertionSort (fun a b => firstIndex a ≤ firstIndex b)
    ((grouped records).flatMap Prod.snd)
  have hcut := (cut_grouped records).perm hperm
  have hsorted := List.pairwise_insertionSort (fun a b => firstIndex a ≤ firstIndex b)
    ((grouped records).flatMap Prod.snd)
  unfold runs
  generalize ((grouped records).flatMap Prod.snd).insertionSort
    (fun a b => firstIndex a ≤ firstIndex b) = segments at hcut hsorted
  have hbySeq (segment : List Nat) := List.perm_insertionSort
    (fun a b => (entryAt records a).seq ≤ (entryAt records b).seq) segment
  constructor
  · exact (flatten_map_perm hbySeq segments).trans hcut.once
  · intro run hrun
    obtain ⟨segment, hsegment, rfl⟩ := List.mem_map.mp hrun
    intro hnil
    have hnone := (hbySeq segment).symm
    rw [hnil] at hnone
    exact hcut.occupied segment hsegment hnone.eq_nil
  · intro run hrun
    obtain ⟨segment, hsegment, rfl⟩ := List.mem_map.mp hrun
    have htotal : Std.Total fun a b => (entryAt records a).seq ≤ (entryAt records b).seq :=
      ⟨fun a b => Nat.le_total _ _⟩
    have htrans : IsTrans Nat fun a b => (entryAt records a).seq ≤ (entryAt records b).seq :=
      ⟨fun a b c => Nat.le_trans⟩
    apply (pairwise_stable (hcut.ascending segment hsegment)).imp
    intro a b ⟨hle, htie⟩
    rcases Nat.lt_or_eq_of_le hle with hlt | heq
    · exact Or.inl hlt
    · exact Or.inr ⟨heq, htie (Nat.le_of_eq heq.symm)⟩
  · intro run hrun i hi j hj
    obtain ⟨segment, hsegment, rfl⟩ := List.mem_map.mp hrun
    have hin := (hbySeq segment).subset
    exact hcut.alike segment hsegment i (hin hi) j (hin hj)
  · rw [List.pairwise_map]
    apply (hcut.leads hsorted).imp
    intro segment later hleads i hi j hj
    exact hleads i ((hbySeq segment).subset hi) j ((hbySeq later).subset hj)

end Sorting

section Playback
variable {records : List Entry}

theorem playRun_spec (start : Nat) (run : List Nat) (last : Nat) :
    (playRun records start run last).map Prod.fst = run ∧
      (playRun records start run last).Pairwise (fun a b => a.2 ≤ b.2) ∧
        ∀ played ∈ playRun records start run last, last ≤ played.2 := by
  induction run generalizing last with
  | nil => exact ⟨rfl, List.Pairwise.nil, fun played hplayed => absurd hplayed List.not_mem_nil⟩
  | cons index run ih =>
    obtain ⟨hindices, hrising, hbound⟩ :=
      ih (max last (start + (entryAt records index).monoMs))
    rw [playRun]
    refine ⟨?_, List.pairwise_cons.mpr ⟨hbound, hrising⟩, ?_⟩
    · rw [List.map_cons, hindices]
    · intro played hplayed
      cases hplayed with
      | head => exact Nat.le_max_left _ _
      | tail _ hplayed => exact (Nat.le_max_left _ _).trans (hbound played hplayed)

/-- Where the clock of a run does not step back, each record plays at its own time. -/
theorem playRun_steady {start : Nat} {run : List Nat} {last : Nat}
    (hsteady : run.Pairwise fun i j => (entryAt records i).monoMs ≤ (entryAt records j).monoMs)
    (hlast : ∀ index ∈ run, last ≤ start + (entryAt records index).monoMs) :
    playRun records start run last =
      run.map fun index => (index, start + (entryAt records index).monoMs) := by
  induction run generalizing last with
  | nil => rfl
  | cons index run ih =>
    obtain ⟨hfirst, hrest⟩ := List.pairwise_cons.mp hsteady
    rw [playRun, Nat.max_eq_right (hlast index List.mem_cons_self), List.map_cons]
    congr 1
    apply ih hrest
    intro later hlater
    exact Nat.add_le_add_left (hfirst later hlater) start

theorem le_last_of_rising {played : List (Nat × Nat)}
    (hrising : played.Pairwise fun a b => a.2 ≤ b.2) (start : Nat) :
    ∀ one ∈ played, one.2 ≤ (played.getLast?.map Prod.snd).getD start := by
  intro one hone
  obtain ⟨front, last, rfl⟩ : ∃ front last, played = front ++ [last] :=
    ⟨_, _, (List.dropLast_append_getLast (List.ne_nil_of_mem hone)).symm⟩
  rw [List.getLast?_concat, Option.map_some, Option.getD_some]
  rcases List.mem_append.mp hone with hfront | hlast
  · exact (List.pairwise_append.mp hrising).2.2 one hfront last List.mem_cons_self
  · rw [List.mem_singleton.mp hlast]

theorem playRuns_blocks {runs : List (List Nat)} (hoccupied : ∀ run ∈ runs, run ≠ [])
    {base : Nat} {previous : Option Nat} (hbase : previous = none → base = 0) :
    ∃ blocks, playRuns records runs base previous = blocks.flatten ∧
      List.Forall₂ (fun run block => ∃ start, block = playRun records start run start)
        runs blocks ∧
      blocks.flatten.Pairwise (fun a b => a.2 ≤ b.2) ∧
        ∀ played ∈ blocks.flatten, base ≤ played.2 := by
  induction runs generalizing base previous with
  | nil =>
    exact ⟨[], rfl, List.Forall₂.nil, List.Pairwise.nil,
      fun played hplayed => absurd hplayed List.not_mem_nil⟩
  | cons run runs ih =>
    obtain ⟨first, rest, hrun⟩ := List.exists_cons_of_ne_nil (hoccupied run List.mem_cons_self)
    have hhead : run.head? = some first := by rw [hrun, List.head?_cons]
    rw [playRuns, hhead]
    dsimp only
    generalize hstart : previous.elim 0 _ = start
    have hle : base ≤ start := by
      cases previous with
      | none => rw [hbase rfl]; exact Nat.zero_le start
      | some previous => rw [← hstart]; exact Nat.le_add_right _ _
    obtain ⟨hindices, hrising, hbound⟩ := @playRun_spec records start run start
    have hlast := le_last_of_rising hrising start
    have hbetween : start ≤
        ((playRun records start run start).getLast?.map Prod.snd).getD start := by
      cases hend : (playRun records start run start).getLast? with
      | none => exact le_refl start
      | some one => exact hbound one (List.mem_of_getLast? hend)
    have hnone : run.getLast? = none →
        ((playRun records start run start).getLast?.map Prod.snd).getD start = 0 := by
      intro hnone
      rw [List.getLast?_eq_none_iff, hrun] at hnone
      cases hnone
    obtain ⟨blocks, hblocks, hruns, hlater, hbehind⟩ :=
      ih (fun run hrun => hoccupied run (List.mem_cons_of_mem _ hrun)) hnone
    refine ⟨playRun records start run start :: blocks, ?_, List.Forall₂.cons ⟨start, rfl⟩ hruns,
      ?_, ?_⟩
    · rw [hblocks, List.flatten_cons]
    · rw [List.flatten_cons, List.pairwise_append]
      refine ⟨hrising, hlater, ?_⟩
      intro one hone later hmem
      exact (hlast one hone).trans (hbehind later hmem)
    · intro played hplayed
      rw [List.flatten_cons] at hplayed
      rcases List.mem_append.mp hplayed with hmem | hmem
      · exact hle.trans (hbound played hmem)
      · exact (hle.trans hbetween).trans (hbehind played hmem)

/-- The clock of the segment of `i` does not step back in the order it is played in. -/
def Steady (records : List Entry) (i : Nat) : Prop :=
  ∀ j < records.length, ∀ k < records.length, SameSegment records i j → SameSegment records i k →
    Before records j k → (entryAt records j).monoMs ≤ (entryAt records k).monoMs

/-- What a playback shows of a transcript. -/
structure Plays (records : List Entry) (playback : List (Nat × Nat)) : Prop where
  once : (playback.map Prod.fst).Perm (List.range records.length)
  rising : playback.Pairwise fun a b => a.2 ≤ b.2
  ordered : playback.Pairwise fun a b =>
    SameSegment records a.1 b.1 → Before records a.1 b.1
  contiguous : ∀ front a middle b back, playback = front ++ a :: (middle ++ b :: back) →
    SameSegment records a.1 b.1 → ∀ c ∈ middle, SameSegment records a.1 c.1
  segments : playback.Pairwise fun a b =>
    ¬SameSegment records a.1 b.1 → Leads records a.1 b.1
  distances : playback.Pairwise fun a b =>
    SameSegment records a.1 b.1 → Steady records a.1 →
      b.2 - a.2 = (entryAt records b.1).monoMs - (entryAt records a.1).monoMs

theorem leads_asymm {i j : Nat} (h : Leads records i j) : ¬Leads records j i := by
  intro ⟨first, hfirst, hsame, hleast⟩
  obtain ⟨other, hother, hsame', hleast'⟩ := h
  have hlt := hleast other hother hsame'
  have hgt := hleast' first hfirst hsame
  omega

theorem contiguous_of_leads {playback : List (Nat × Nat)}
    (hleads : playback.Pairwise fun a b =>
      ¬SameSegment records a.1 b.1 → Leads records a.1 b.1)
    {front middle back : List (Nat × Nat)} {a b : Nat × Nat}
    (hsplit : playback = front ++ a :: (middle ++ b :: back))
    (hsame : SameSegment records a.1 b.1) : ∀ c ∈ middle, SameSegment records a.1 c.1 := by
  intro c hc
  by_contra hother
  rw [hsplit] at hleads
  have hafter := (List.pairwise_cons.mp (List.pairwise_append.mp hleads).2.1)
  have hfirst := hafter.1 c (List.mem_append_left _ hc) hother
  have hsecond := (List.pairwise_append.mp hafter.2).2.2 c hc b List.mem_cons_self
  have hback : ¬SameSegment records c.1 b.1 := fun h => hother (hsame.trans h.symm)
  obtain ⟨first, hbound, hin, hleast⟩ := hsecond hback
  apply leads_asymm hfirst
  exact ⟨first, hbound, hin, fun other hrange hthis => hleast other hrange (hthis.trans hsame)⟩

theorem block_distances {run : List Nat} {start : Nat} (hbound : ∀ i ∈ run, i < records.length)
    (hsorted : run.Pairwise (Before records))
    (halike : ∀ i ∈ run, ∀ j ∈ run, SameSegment records i j) :
    (playRun records start run start).Pairwise fun a b =>
      SameSegment records a.1 b.1 → Steady records a.1 →
        b.2 - a.2 = (entryAt records b.1).monoMs - (entryAt records a.1).monoMs := by
  have hindices := (@playRun_spec records start run start).1
  by_cases hsteady : ∃ i ∈ run, Steady records i
  · obtain ⟨i, hi, hclock⟩ := hsteady
    have hrising : run.Pairwise fun j k =>
        (entryAt records j).monoMs ≤ (entryAt records k).monoMs := by
      apply hsorted.imp_of_mem
      intro j k hj hk hbefore
      exact hclock j (hbound j hj) k (hbound k hk) (halike i hi j hj) (halike i hi k hk) hbefore
    rw [playRun_steady hrising fun index _ => Nat.le_add_right _ _, List.pairwise_map]
    apply hrising.imp
    intro j k hle _ _
    dsimp only
    omega
  · -- None of the block's records has a steady clock.
    apply (List.pairwise_of_forall fun _ _ => trivial).imp_of_mem
    intro a b ha _ _ _ hclock
    refine absurd ⟨a.1, ?_, hclock⟩ hsteady
    rw [← hindices]
    exact List.mem_map_of_mem ha

theorem indices_of_blocks {runs : List (List Nat)} {blocks : List (List (Nat × Nat))}
    (h : List.Forall₂ (fun run block => ∃ start, block = playRun records start run start)
      runs blocks) : blocks.map (List.map Prod.fst) = runs := by
  induction h with
  | nil => rfl
  | cons hblock _ ih =>
    obtain ⟨start, rfl⟩ := hblock
    rw [List.map_cons, ih, (playRun_spec _ _ _).1]

theorem run_of_block {runs : List (List Nat)} {blocks : List (List (Nat × Nat))}
    (h : List.Forall₂ (fun run block => ∃ start, block = playRun records start run start)
      runs blocks) :
    ∀ block ∈ blocks, ∃ run ∈ runs, ∃ start, block = playRun records start run start := by
  induction h with
  | nil => exact fun block hblock => absurd hblock List.not_mem_nil
  | cons hfirst _ ih =>
    intro block hblock
    cases hblock with
    | head => exact ⟨_, List.mem_cons_self, hfirst⟩
    | tail _ hblock =>
      obtain ⟨run, hrun, hplayed⟩ := ih block hblock
      exact ⟨run, List.mem_cons_of_mem _ hrun, hplayed⟩

/-- A transcript is played whole and in order, whatever its records are. -/
theorem timeline_plays (records : List Entry) : Plays records (timeline records) := by
  obtain ⟨honce, hoccupied, hsorted, halike, hafter⟩ := runs_spec records
  obtain ⟨blocks, hplayback, hruns, hrising, -⟩ :=
    @playRuns_blocks records _ hoccupied 0 none fun _ => rfl
  have hblocks := indices_of_blocks hruns
  have hindices : (timeline records).map Prod.fst = (runs records).flatten := by
    unfold timeline
    rw [hplayback, List.map_flatten, hblocks]
  have hordered : (runs records).flatten.Pairwise fun i j =>
      SameSegment records i j → Before records i j := by
    rw [List.pairwise_flatten]
    constructor
    · intro run hrun
      apply (hsorted run hrun).imp
      intro i j hbefore _
      exact hbefore
    · apply hafter.imp
      intro run later hapart i hi j hj hsame
      exact absurd hsame (hapart i hi j hj).1
  have hleads : (runs records).flatten.Pairwise fun i j =>
      ¬SameSegment records i j → Leads records i j := by
    rw [List.pairwise_flatten]
    constructor
    · intro run hrun
      apply (hsorted run hrun).imp_of_mem
      intro i j hi hj _ hother
      exact absurd (halike run hrun i hi j hj) hother
    · apply hafter.imp
      intro run later hapart i hi j hj _
      exact (hapart i hi j hj).2
  rw [← hindices, List.pairwise_map] at hordered hleads
  constructor
  · rw [hindices]
    exact honce
  · unfold timeline
    rw [hplayback]
    exact hrising
  · exact hordered
  · exact fun front a middle b back => contiguous_of_leads hleads
  · exact hleads
  · unfold timeline
    rw [hplayback, List.pairwise_flatten]
    constructor
    · intro block hblock
      obtain ⟨run, hrun, start, rfl⟩ := run_of_block hruns block hblock
      apply block_distances _ (hsorted run hrun) (halike run hrun)
      intro i hi
      rw [← List.mem_range]
      exact honce.subset (List.mem_flatten.mpr ⟨run, hrun, hi⟩)
    · rw [← hblocks, List.pairwise_map] at hafter
      apply hafter.imp
      intro block later hapart a ha b hb hsame
      exact absurd hsame (hapart a.1 (List.mem_map_of_mem ha) b.1 (List.mem_map_of_mem hb)).1

end Playback

end WindbgMcp.Cast
