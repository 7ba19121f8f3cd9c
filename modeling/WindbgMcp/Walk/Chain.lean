import WindbgMcp.Library.Chase
import WindbgMcp.Walk.Node

/-! The walk itself: a list of addresses, an array, or a chain whose next node is the
pointer the last one holds.  A chain is shown to be a chase of its links, whatever the
string the link crosses in. -/
namespace WindbgMcp.Walk

open Library

inductive Resolved where
  | list (addresses : List UInt64)
  | array (start : UInt64) (stride : Int64) (count : Nat)
  | chain (start : UInt64) (nextOffset : Int64) (count : Nat)
deriving Repr

inductive WalkMode where
  | list
  | array
  | chain
deriving DecidableEq, Repr

inductive WalkStop where
  | complete
  | cap (next : String)
  | nullLink
  | loop («at» : String)
  | unreadableLink («at» : String)
  | deadline
  | interrupted
deriving DecidableEq, Repr

structure MemoryWalk where
  mode : WalkMode
  start : Option String
  requested : Nat
  walked : Nat
  unreadable : Nat
  nodes : List WalkNode
  stopped : WalkStop
  note : Option String
deriving DecidableEq, Repr

namespace Resolved

def head : Resolved → Option (UInt64 × Nat)
  | list addresses => addresses.head?.map fun first => (first, addresses.length % 2 ^ 32)
  | array start _ count => some (start, count)
  | chain start _ count => some (start, count)

def start : Resolved → Option UInt64
  | list _ => none
  | array start _ _ => some start
  | chain start _ _ => some start

def link : Resolved → Option Int64
  | chain _ nextOffset _ => some nextOffset
  | _ => none

def mode : Resolved → WalkMode
  | list _ => .list
  | array .. => .array
  | chain .. => .chain

end Resolved

/-- Reads back an address written by `addr`. -/
def parseAddrBack (text : String) : Option UInt64 :=
  ((Text.afterFront "0x" text).bind (Text.parseHex (2 ^ 64 - 1))).map UInt64.ofNat

structure State where
  nodes : List WalkNode
  visited : List UInt64
  unreadable : Nat
  stopped : WalkStop
  index : Nat
  nextNode : Option UInt64
deriving Repr

def follow (source : Resolved) (state : State) («at» : UInt64) (followed : Option String) :
    Except WalkStop (Option UInt64) :=
  match source with
  | .list addresses => .ok addresses[state.index]?
  | .array _ stride _ => .ok (some (wrappingAddSigned «at» stride.toInt))
  | .chain .. =>
    match followed.bind parseAddrBack with
    | none => .error (.unreadableLink (addr «at»))
    | some next =>
      if next = 0 then .error .nullLink
      else if next ∈ state.visited then .error (.loop (addr next))
      else .ok (some next)

section
variable (source : Resolved) (fields : List Field) (read : UInt64 → Nat → Option (List UInt8))
  (halt : Nat → Option Halt)

def visit (state : State) («at» : UInt64) : State × Option String :=
  let node := readNode read «at» state.index fields source.link
  ({ state with
      nodes := state.nodes ++ [node]
      visited := «at» :: state.visited
      unreadable := if node.readable then state.unreadable else state.unreadable + 1
      index := state.index + 1 },
    node.next)

/-- At most `left` more nodes.  `halt` is polled once per node, before its reads. -/
def walkFrom : Nat → State → State
  | 0, state => state
  | left + 1, state =>
    match state.nextNode with
    | none => state
    | some «at» =>
      match halt state.index with
      | some .deadline => { state with stopped := .deadline }
      | some .interrupted => { state with stopped := .interrupted }
      | none =>
        let (behind, followed) := visit source fields read state «at»
        match follow source behind «at» followed with
        | .error stopped => { behind with stopped }
        | .ok nextNode => walkFrom left { behind with nextNode }

/-- Why the walk stopped.  A chain that has a link in hand at its cap says where to walk
from next. -/
def State.stop (state : State) : WalkStop :=
  match state.stopped, source, state.nextNode with
  | .complete, .chain .., some next => .cap (addr next)
  | stopped, _, _ => stopped

def run : MemoryWalk :=
  let (head, count) := (source.head.map (·.1), (source.head.map (·.2)).getD 0)
  let last := walkFrom source fields read halt count
    { nodes := [], visited := [], unreadable := 0, stopped := .complete, index := 0,
      nextNode := head }
  { mode := source.mode
    start := source.start.map addr
    requested := count
    walked := last.nodes.length
    unreadable := last.unreadable
    nodes := last.nodes
    stopped := last.stop source
    note := none }

end

theorem parseAddrBack_addr (value : UInt64) : parseAddrBack (addr value) = some value := by
  have hfront : Text.afterFront "0x" (addr value) = some (Text.hexPadded 16 value.toNat) := by
    unfold Text.afterFront addr
    rw [String.toList_append, if_pos (by simp)]
    simp
  have hbound : value.toNat ≤ 2 ^ 64 - 1 := Nat.le_pred_of_lt value.toNat_lt
  unfold parseAddrBack
  rw [hfront, Option.bind_some, Text.parseHex_hexPadded 16 hbound, Option.map_some,
    UInt64.ofNat_toNat]

def linkOf (read : UInt64 → Nat → Option (List UInt8)) (fields : List Field)
    (nextOffset : Int64) («at» : UInt64) : Option UInt64 :=
  value read «at» (buffer read «at» (spans fields (some nextOffset))) nextOffset.toInt 8

def stopOf : Chase.Ending UInt64 → WalkStop
  | .cap next => .cap (addr next)
  | .null => .nullLink
  | .loop «at» => .loop (addr «at»)
  | .unreadable «at» => .unreadableLink (addr «at»)

section
variable {read : UInt64 → Nat → Option (List UInt8)} {fields : List Field} {nextOffset : Int64}
  {start : UInt64} {count : Nat}

@[simp] theorem bind_parseAddrBack (link : Option UInt64) :
    (link.map addr).bind parseAddrBack = link := by
  cases link with
  | none => rfl
  | some next => rw [Option.map_some, Option.bind_some, parseAddrBack_addr]

theorem next_readNode (index : Nat) («at» : UInt64) :
    (readNode read «at» index fields (some nextOffset)).next =
      (linkOf read fields nextOffset «at»).map addr := rfl

theorem follow_chain (state : State) («at» : UInt64) (link : Option UInt64) :
    follow (.chain start nextOffset count) state «at» (link.map addr) =
      match link with
      | none => .error (.unreadableLink (addr «at»))
      | some next =>
        if next = 0 then .error .nullLink
        else if next ∈ state.visited then .error (.loop (addr next))
        else .ok (some next) := by
  unfold follow
  simp only [bind_parseAddrBack]

/-- The loop is a chase: it adds one row for each node chased, numbered on from the rows
it has, and stops for the reason for which the chase ends. -/
theorem walkFrom_chain {left : Nat} {state : State} {«at» : UInt64}
    (hnext : state.nextNode = some «at») (hstopped : state.stopped = .complete) :
    (walkFrom (.chain start nextOffset count) fields read (fun _ => none) left state).nodes =
        state.nodes ++
          (Chase.chase (linkOf read fields nextOffset) 0 left state.visited «at»).1.mapIdx
            (fun later node =>
              readNode read node (state.index + later) fields (some nextOffset)) ∧
      (walkFrom (.chain start nextOffset count) fields read (fun _ => none) left state).stop
          (.chain start nextOffset count) =
        stopOf (Chase.chase (linkOf read fields nextOffset) 0 left state.visited «at»).2 := by
  induction left generalizing state «at» with
  | zero =>
    refine ⟨by simp [walkFrom, Chase.chase], ?_⟩
    unfold walkFrom State.stop
    rw [hstopped, hnext]
    rfl
  | succ left ih =>
    unfold walkFrom
    rw [Chase.chase_succ, hnext]
    simp only [visit, next_readNode, Resolved.link, follow_chain]
    cases hlink : linkOf read fields nextOffset «at» with
    | none => exact ⟨rfl, rfl⟩
    | some next =>
      simp only
      by_cases hnull : next = 0
      · rw [if_pos hnull, if_pos hnull]
        exact ⟨rfl, rfl⟩
      rw [if_neg hnull, if_neg hnull]
      by_cases hloop : next ∈ «at» :: state.visited
      · rw [if_pos hloop, if_pos hloop]
        exact ⟨rfl, rfl⟩
      rw [if_neg hloop, if_neg hloop]
      simp only
      obtain ⟨hnodes, hstop⟩ := @ih
        { nodes := state.nodes ++ [readNode read «at» state.index fields (some nextOffset)]
          visited := «at» :: state.visited
          unreadable :=
            if (readNode read «at» state.index fields (some nextOffset)).readable then
              state.unreadable
            else state.unreadable + 1
          stopped := state.stopped
          index := state.index + 1
          nextNode := some next } next rfl hstopped
      refine ⟨hnodes.trans ?_, hstop⟩
      rw [List.mapIdx_cons, List.append_assoc]
      simp only [Nat.add_zero, List.singleton_append, Nat.add_assoc, Nat.add_comm 1]

theorem run_chain :
    (run (.chain start nextOffset count) fields read fun _ => none).nodes =
        (Chase.chase (linkOf read fields nextOffset) 0 count [] start).1.mapIdx
          (fun index node => readNode read node index fields (some nextOffset)) ∧
      (run (.chain start nextOffset count) fields read fun _ => none).stopped =
        stopOf (Chase.chase (linkOf read fields nextOffset) 0 count [] start).2 := by
  obtain ⟨hnodes, hstop⟩ := @walkFrom_chain read fields nextOffset start count count
    { nodes := [], visited := [], unreadable := 0, stopped := .complete, index := 0,
      nextNode := some start } start rfl rfl
  refine ⟨hnodes.trans ?_, hstop⟩
  simp only [List.nil_append, Nat.zero_add]

end

/-- What a chain walk reports, `visited` being the addresses of its rows. -/
structure Exact (link : UInt64 → Option UInt64) (row : Nat → UInt64 → WalkNode)
    (start : UInt64) (count : Nat) (walk : MemoryWalk) (visited : List UInt64) : Prop where
  rows : walk.nodes = visited.mapIdx row
  distinct : visited.Nodup
  bounded : visited.length ≤ count
  starts : 0 < count → visited.head? = some start
  empty : count = 0 → walk.stopped = .cap (addr start)
  chained : visited.IsChain fun node next => link node = some next
  unreadable : ∀ last, visited.getLast? = some last → ∀ text,
    walk.stopped = .unreadableLink text ↔ link last = none ∧ text = addr last
  null : ∀ last, visited.getLast? = some last →
    (walk.stopped = .nullLink ↔ link last = some 0)
  loop : ∀ last, visited.getLast? = some last → ∀ text,
    walk.stopped = .loop text ↔
      ∃ next, link last = some next ∧ next ≠ 0 ∧ next ∈ visited ∧ text = addr next
  cap : ∀ last, visited.getLast? = some last → ∀ text,
    walk.stopped = .cap text ↔ visited.length = count ∧
      ∃ next, link last = some next ∧ next ≠ 0 ∧ next ∉ visited ∧ text = addr next

section
variable {link : UInt64 → Option UInt64} {count : Nat} {visited : List UInt64} {last : UInt64}
  {ending : Chase.Ending UInt64}

theorem unreadable_iff (h : Chase.Ended link 0 count [] visited last ending) (text : String) :
    stopOf ending = .unreadableLink text ↔ link last = none ∧ text = addr last := by
  cases ending with
  | cap next => simp [stopOf, h.2.1]
  | null => simp [stopOf, show link last = some 0 from h]
  | loop target => simp [stopOf, h.1]
  | unreadable target => simp [stopOf, h.1, h.2, eq_comm]

theorem null_iff (h : Chase.Ended link 0 count [] visited last ending) :
    stopOf ending = .nullLink ↔ link last = some 0 := by
  cases ending with
  | cap next => simp [stopOf, h.2.1, h.2.2.1]
  | null => simp [stopOf, show link last = some 0 from h]
  | loop target => simp [stopOf, h.1, h.2.1]
  | unreadable target => simp [stopOf, h.1]

theorem loop_iff (h : Chase.Ended link 0 count [] visited last ending) (text : String) :
    stopOf ending = .loop text ↔
      ∃ next, link last = some next ∧ next ≠ 0 ∧ next ∈ visited ∧ text = addr next := by
  cases ending with
  | cap next => simp [stopOf, h.2.1, h.2.2.2.1]
  | null => simp [stopOf, show link last = some 0 from h]
  | loop target =>
    have hmem : target ∈ visited := h.2.2.resolve_right List.not_mem_nil
    simp [stopOf, h.1, h.2.1, hmem, eq_comm]
  | unreadable target => simp [stopOf, h.1]

theorem cap_iff (h : Chase.Ended link 0 count [] visited last ending) (text : String) :
    stopOf ending = .cap text ↔ visited.length = count ∧
      ∃ next, link last = some next ∧ next ≠ 0 ∧ next ∉ visited ∧ text = addr next := by
  cases ending with
  | cap next => simp [stopOf, h.1, h.2.1, h.2.2.1, h.2.2.2.1, eq_comm]
  | null => simp [stopOf, show link last = some 0 from h]
  | loop target =>
    have hmem : target ∈ visited := h.2.2.resolve_right List.not_mem_nil
    simp [stopOf, h.1, hmem]
  | unreadable target => simp [stopOf, h.1]

end

section
variable {fields : List Field} {nextOffset : Int64} {start : UInt64} {count more : Nat}

theorem exact_run (read : UInt64 → Nat → Option (List UInt8)) :
    Exact (linkOf read fields nextOffset)
      (fun index node => readNode read node index fields (some nextOffset)) start count
      (run (.chain start nextOffset count) fields read fun _ => none)
      (Chase.chase (linkOf read fields nextOffset) 0 count [] start).1 where
  rows := run_chain.1
  distinct := Chase.nodup_chase
  bounded := Chase.length_chase_le
  starts := by
    intro hcount
    obtain ⟨bound, rfl⟩ := Nat.exists_eq_succ_of_ne_zero (Nat.ne_of_gt hcount)
    exact Chase.head_chase
  empty := by
    intro hcount
    rw [run_chain.2, hcount]
    rfl
  chained := Chase.isChain_chase
  unreadable := by
    intro last hlast text
    rw [run_chain.2]
    exact unreadable_iff (Chase.ended_chase hlast) text
  null := by
    intro last hlast
    rw [run_chain.2]
    exact null_iff (Chase.ended_chase hlast)
  loop := by
    intro last hlast text
    rw [run_chain.2]
    exact loop_iff (Chase.ended_chase hlast) text
  cap := by
    intro last hlast text
    rw [run_chain.2]
    exact cap_iff (Chase.ended_chase hlast) text

/-- Walking on from the reported address gives the rows a longer walk has next, numbered
from zero again. -/
theorem run_resume (read : UInt64 → Nat → Option (List UInt8)) (hmore : 0 < more)
    (hfull : (run (.chain start nextOffset (count + more)) fields read
      fun _ => none).nodes.length = count + more) :
    ∃ next,
      (run (.chain start nextOffset count) fields read fun _ => none).stopped =
          .cap (addr next) ∧
        (run (.chain start nextOffset (count + more)) fields read fun _ => none).nodes =
          (run (.chain start nextOffset count) fields read fun _ => none).nodes ++
            (run (.chain next nextOffset more) fields read fun _ => none).nodes.map
              fun row => { row with index := count + row.index } := by
  rw [run_chain.1, List.length_mapIdx] at hfull
  obtain ⟨next, hending, hnodes⟩ := Chase.chase_resume hmore hfull
  refine ⟨next, ?_, ?_⟩
  · rw [run_chain.2, hending]
    rfl
  · have hlater : (Chase.chase (linkOf read fields nextOffset) 0 more [] next).1.length ≤ more :=
      Chase.length_chase_le
    have hshort : (Chase.chase (linkOf read fields nextOffset) 0 count [] start).1.length ≤
        count := Chase.length_chase_le
    have hlength : (Chase.chase (linkOf read fields nextOffset) 0 count [] start).1.length =
        count := by
      rw [hnodes, List.length_append] at hfull
      omega
    rw [run_chain.1, run_chain.1, run_chain.1, hnodes, List.mapIdx_append, hlength]
    congr 1
    rw [List.mapIdx_eq_iff]
    intro index
    rw [List.getElem?_map, List.getElem?_mapIdx, Option.map_map]
    congr 1
    funext node
    simp only [Function.comp_apply, readNode, Nat.add_comm count index]

/-- A link that ends inside the offset range, or is all a node is asked for, is the
pointer read alone. -/
theorem linkOf_eq_alone {memory : ByteMap} («at» : UInt64)
    (h : nextOffset.toInt + 8 ≤ i64Max ∨ fields = []) :
    linkOf memory.read fields nextOffset «at» =
      alone memory.read «at» nextOffset.toInt 8 := by
  have hmem : (nextOffset.toInt, 8) ∈ spans fields (some nextOffset) :=
    List.mem_append_right _ List.mem_cons_self
  unfold linkOf
  cases hbuffer : buffer memory.read «at» (spans fields (some nextOffset)) with
  | none => rfl
  | some fetched =>
    obtain ⟨lo, bytes⟩ := fetched
    obtain ⟨hi, hspanned⟩ := buffer_eq_some_iff.mp hbuffer
    cases h with
    | inl hfits =>
      apply value_of_inside hspanned hmem
      have hle := hspanned.le_hi hmem
      rwa [saturatingAdd_of_le (offset_le_of_mem hmem).1 hfits] at hle
    | inr hnone =>
      have hseveral := hspanned.several
      rw [hnone] at hseveral
      simp [spans] at hseveral

end

theorem chain_walk_exact_and_resumable (memory : ByteMap) (fields : List Field)
    (nextOffset : Int64) (start : UInt64) :
    (∀ count, ∃ visited,
      Exact (linkOf memory.read fields nextOffset)
        (fun index node => readNode memory.read node index fields (some nextOffset)) start count
        (run (.chain start nextOffset count) fields memory.read fun _ => none) visited) ∧
    (∀ count more, 0 < more →
      (run (.chain start nextOffset (count + more)) fields memory.read
        fun _ => none).nodes.length = count + more →
      ∃ next,
        (run (.chain start nextOffset count) fields memory.read fun _ => none).stopped =
            .cap (addr next) ∧
          (run (.chain start nextOffset (count + more)) fields memory.read fun _ => none).nodes =
            (run (.chain start nextOffset count) fields memory.read fun _ => none).nodes ++
              (run (.chain next nextOffset more) fields memory.read fun _ => none).nodes.map
                fun row => { row with index := count + row.index }) ∧
    (nextOffset.toInt + 8 ≤ i64Max ∨ fields = [] → ∀ «at»,
      linkOf memory.read fields nextOffset «at» =
        alone memory.read «at» nextOffset.toInt 8) := by
  refine ⟨?_, ?_, ?_⟩
  · intro count
    exact ⟨_, exact_run memory.read⟩
  · intro count more hmore hfull
    exact run_resume memory.read hmore hfull
  · intro h «at»
    exact linkOf_eq_alone «at» h

/-- Three nodes, walked at once, and one of them and then the two behind its cap. -/
theorem chain_walk_resumed :
    let memory : ByteMap :=
      ⟨fun address => some (if address = 0x1001 then 0x20 else if address = 0x2001 then 0x30 else 0),
        true⟩
    (run (.chain 0x1000 0 3) [⟨"flags", 8, 4⟩] memory.read fun _ => none).nodes.length = 3 ∧
      ∃ next,
        (run (.chain 0x1000 0 1) [⟨"flags", 8, 4⟩] memory.read fun _ => none).stopped = .cap (addr next) ∧
          (run (.chain 0x1000 0 3) [⟨"flags", 8, 4⟩] memory.read fun _ => none).nodes =
            (run (.chain 0x1000 0 1) [⟨"flags", 8, 4⟩] memory.read fun _ => none).nodes ++
              (run (.chain next 0 2) [⟨"flags", 8, 4⟩] memory.read fun _ => none).nodes.map
                fun row => { row with index := 1 + row.index } := by
  intro memory
  have hfull : (run (.chain 0x1000 0 3) [⟨"flags", 8, 4⟩] memory.read fun _ => none).nodes.length = 3 := by
    decide
  exact ⟨hfull, (chain_walk_exact_and_resumable memory [⟨"flags", 8, 4⟩] 0 0x1000).2.1 1 2 (by decide) hfull⟩

/-- A resumed walk numbers its rows from zero, so its first row is not the longer walk's
next one; and a null link out of a node at address zero, which is already visited, ends
the walk as null and not as a loop. -/
theorem resumed_rows_renumber_and_null_precedes_loop :
    let memory : ByteMap :=
      ⟨fun address => some (if address = 0x1001 then 0x20 else if address = 0x2001 then 0x30 else 0),
        true⟩
    let zeros : ByteMap := ⟨fun _ => some 0, true⟩
    ((run (.chain 0x1000 0 1) [] memory.read fun _ => none).stopped = .cap (addr 0x2000) ∧
      (run (.chain 0x1000 0 2) [] memory.read fun _ => none).nodes.length = 2 ∧
      (run (.chain 0x1000 0 2) [] memory.read fun _ => none).nodes ≠
        (run (.chain 0x1000 0 1) [] memory.read fun _ => none).nodes ++
          (run (.chain 0x2000 0 1) [] memory.read fun _ => none).nodes) ∧
    (run (.chain 0 0 2) [] zeros.read fun _ => none).nodes.map (·.address) = [addr 0] ∧
      linkOf zeros.read [] 0 0 = some 0 ∧
      (run (.chain 0 0 2) [] zeros.read fun _ => none).stopped = .nullLink := by
  decide

end WindbgMcp.Walk
