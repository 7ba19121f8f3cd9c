import WindbgMcp.Driver.Coverage
import WindbgMcp.Library.Backtracking

/-! The recipe of a segment: one path inside the function, given by the branches it
takes and passes.  It is searched for along the same edges as the walk follows. -/
namespace WindbgMcp.Driver

open Library Relation
open Backtracking (Way)

abbrev Decision := Nat × Bool

def behind (block : List Instruction) (i : Fin block.length) : Option (Fin block.length) :=
  if h : i.val + 1 < block.length then some ⟨i.val + 1, h⟩ else none

/-- Where the search goes on behind an instruction, in the order it tries, with what it
notes of each. -/
def routes (block : List Instruction) (tables : JumpTables) (i : Fin block.length) :
    List (Option Decision × Fin block.length) :=
  let insn := block.get i
  let next := behind block i
  match insn.flow with
  | .ret | .trap | .unreadable | .unknown => []
  | .jmp destination =>
    match destination.bind (indexOf block) with
    | some j => [(none, j)]
    -- the slot a switch takes is the control code itself, so nothing is noted of it
    | none => ((tables.at insn.address).filterMap (indexOf block)).map fun j => (none, j)
  | .branch destination =>
    ((destination.bind (indexOf block)).map fun j => (some (insn.address, true), j)).toList ++
      (next.map fun j => (some (insn.address, false), j)).toList
  | .fallthrough => (next.map fun j => (none, j)).toList
  -- behind the call first, and only then into it
  | .call destination =>
    (next.map fun j => (none, j)).toList ++
      ((destination.bind (indexOf block)).map fun j => (none, j)).toList

/-- Nothing, if the search has not come back after `fuel` nested calls. -/
def dfs (block : List Instruction) (goal : Nat) (tables : JumpTables) (fuel : Nat)
    (i : Fin block.length) (search : Backtracking.Search (Fin block.length) Decision) :
    Option (Bool × Backtracking.Search (Fin block.length) Decision) :=
  Backtracking.seek (routes block tables) (fun i => (block.get i).address == goal) fuel i search

/-- The decisions of one path from `start` to `goal` inside the function, or nothing if
there is none. -/
def findPath (block : List Instruction) (start goal : Nat) (tables : JumpTables) :
    Option (List Decision) :=
  (indexOf block start).bind fun first =>
    match dfs block goal tables (block.length + 1) first ⟨[], []⟩ with
    | some (true, search) => some search.noted
    | _ => none

/-! ## Paths -/

/-- One transfer of a path, with the decision it is if it leaves a branch. -/
inductive Travels (block : List Instruction) (tables : JumpTables) (i j : Fin block.length) :
    Option Decision → Prop where
  | taken {target : Nat} (hflow : (block.get i).flow = .branch (some target))
      (htarget : (block.get j).address = target) :
      Travels block tables i j (some ((block.get i).address, true))
  | passed {destination : Option Nat} (hflow : (block.get i).flow = .branch destination)
      (hnext : j.val = i.val + 1) : Travels block tables i j (some ((block.get i).address, false))
  | plain (hflow : ∀ destination, (block.get i).flow ≠ .branch destination)
      (hedge : FlowEdge block tables i j) : Travels block tables i j none

inductive Route (block : List Instruction) (tables : JumpTables) :
    Fin block.length → List Decision → Fin block.length → Prop where
  | here (i : Fin block.length) : Route block tables i [] i
  | on {i j last : Fin block.length} {note : Option Decision} {decisions : List Decision}
      (htravels : Travels block tables i j note) (hrest : Route block tables j decisions last) :
      Route block tables i (note.toList ++ decisions) last

def JumpTables.KeyedAtJumps (tables : JumpTables) (block : List Instruction) : Prop :=
  ∀ site targets, (site, targets) ∈ tables.targets → ∀ insn ∈ block, insn.address = site →
    insn.flow = .jmp none

section

variable {block : List Instruction} {tables : JumpTables} {i j : Fin block.length}

theorem Travels.flowEdge {note : Option Decision} (h : Travels block tables i j note) :
    FlowEdge block tables i j := by
  cases h with
  | taken hflow htarget => exact .transfer .jmp (htarget ▸ .branch hflow)
  | passed hflow hnext => exact .next (by rw [hflow]; rfl) hnext
  | plain hflow hedge => exact hedge

theorem FlowEdge.travels (h : FlowEdge block tables i j) :
    ∃ note, Travels block tables i j note := by
  by_cases hbranch : ∃ destination, (block.get i).flow = .branch destination
  · obtain ⟨destination, hflow⟩ := hbranch
    cases h with
    | next hfalls hnext => exact ⟨_, .passed hflow hnext⟩
    | transfer kind htransfers =>
      rw [WalkState.transfers_iff, hflow] at htransfers
      exact ⟨_, .taken (hflow.trans (by rw [htransfers.1])) rfl⟩
  · exact ⟨none, .plain (fun destination hflow => hbranch ⟨destination, hflow⟩) h⟩

theorem flowEdge_iff : FlowEdge block tables i j ↔
    ((block.get i).flow.fallsThrough = true ∧ j.val = i.val + 1) ∨
      ∃ kind, Transfers tables (block.get i) (block.get j).address kind := by
  constructor
  · intro h
    cases h with
    | next hfalls hnext => exact Or.inl ⟨hfalls, hnext⟩
    | transfer kind htransfers => exact Or.inr ⟨kind, htransfers⟩
  · intro h
    cases h with
    | inl h => exact .next h.1 h.2
    | inr h => exact h.elim .transfer

theorem JumpTables.KeyedAtJumps.at_eq_nil (h : tables.KeyedAtJumps block)
    (hflow : (block.get i).flow ≠ .jmp none) : tables.at (block.get i).address = [] := by
  unfold JumpTables.at
  cases hlookup : tables.targets.lookup (block.get i).address with
  | none => rfl
  | some targets =>
    obtain ⟨front, back, hsplit, -⟩ := List.lookup_eq_some_iff.mp hlookup
    have hmem : ((block.get i).address, targets) ∈ tables.targets := by
      rw [hsplit]
      simp
    exact absurd (h _ _ hmem _ (List.get_mem _ _) rfl) hflow

theorem Route.reaches {decisions : List Decision} (h : Route block tables i decisions j) :
    ReflTransGen (FlowEdge block tables) i j := by
  induction h with
  | here i => exact .refl
  | on htravels _ ih => exact ReflTransGen.head htravels.flowEdge ih

theorem exists_route (h : ReflTransGen (FlowEdge block tables) i j) :
    ∃ decisions, Route block tables i decisions j := by
  induction h using ReflTransGen.head_induction_on with
  | refl => exact ⟨[], .here j⟩
  | head hedge _ ih =>
    obtain ⟨note, htravels⟩ := hedge.travels
    obtain ⟨decisions, hroute⟩ := ih
    exact ⟨_, .on htravels hroute⟩

theorem behind_eq_some_iff : behind block i = some j ↔ j.val = i.val + 1 := by
  have hlt := j.isLt
  unfold behind
  split
  · rw [Option.some.injEq, Fin.ext_iff]
    exact eq_comm
  · simp only [reduceCtorEq, false_iff]
    omega

section Distinct

variable (hdistinct : (block.map Instruction.address).Nodup)
include hdistinct

theorem indexOf_eq_some_iff {address : Nat} :
    indexOf block address = some j ↔ (block.get j).address = address := by
  constructor
  · exact indexOf_some
  · intro haddress
    cases hindex : indexOf block address with
    | none => exact absurd haddress (indexOf_none hindex j)
    | some k =>
      have hsame := (indexOf_some hindex).trans haddress.symm
      have hk : k.val < (block.map Instruction.address).length := by simp
      have hj : j.val < (block.map Instruction.address).length := by simp
      have hplaces : (block.map Instruction.address)[k.val] =
          (block.map Instruction.address)[j.val] := by simpa using hsame
      rw [Fin.ext (hdistinct.getElem_inj_iff.mp hplaces)]

theorem mem_reachable_iff {start : Nat} {walk : FnWalk}
    (hwalk : walkFunction block start tables = some walk) (goal : Nat) :
    goal ∈ walk.reachable ↔ Segment.ReachesAddress ⟨block, tables, start⟩ goal := by
  constructor
  · exact (walkFunction_sound hwalk).1 goal
  · intro hreaches
    obtain ⟨last, hlast, first, hfirst, hpath⟩ := hreaches
    obtain ⟨hreachable, -, hstart, hflow⟩ := walkFunction_covers hwalk
    rw [← hlast]
    clear hlast
    induction hpath with
    | refl => exact hfirst ▸ hstart
    | @tail middle last _ hedge ih =>
      obtain ⟨i, hexplores, haddress⟩ := (hreachable _).mp ih
      have hsame := (indexOf_eq_some_iff hdistinct).mpr haddress
      rw [(indexOf_eq_some_iff hdistinct).mpr rfl] at hsame
      exact hflow i hexplores last (Option.some.inj hsame ▸ hedge)

theorem bind_indexOf_iff {destination : Option Nat} :
    destination.bind (indexOf block) = some j ↔ destination = some (block.get j).address := by
  cases destination with
  | none => simp
  | some target =>
    rw [Option.bind_some, indexOf_eq_some_iff hdistinct, Option.some.injEq, eq_comm]

omit hdistinct in
theorem mem_optional {place : Option (Fin block.length)} {tag note : Option Decision} :
    (note, j) ∈ (place.map fun j => (tag, j)).toList ↔ note = tag ∧ place = some j := by
  cases place with
  | none => simp
  | some k => simp [eq_comm]

theorem mem_routes_iff (hkeyed : tables.KeyedAtJumps block) {note : Option Decision} :
    (note, j) ∈ routes block tables i ↔ Travels block tables i j note := by
  have hplain (hflow : ∀ destination, (block.get i).flow ≠ .branch destination) :
      Travels block tables i j note ↔ note = none ∧ FlowEdge block tables i j := by
    constructor
    · intro h
      cases h with
      | taken hbranch _ => exact absurd hbranch (hflow _)
      | passed hbranch _ => exact absurd hbranch (hflow _)
      | plain _ hedge => exact ⟨rfl, hedge⟩
    · intro h
      rw [h.1]
      exact .plain hflow h.2
  have htable := @JumpTables.KeyedAtJumps.at_eq_nil block tables i hkeyed
  unfold routes
  simp only [flowEdge_iff, WalkState.transfers_iff] at hplain
  cases hflow : (block.get i).flow with
  | ret | trap | unreadable | unknown =>
    simp only [hflow] at hplain ⊢
    simp [hplain, Flow.fallsThrough]
  | «fallthrough» =>
    simp only [hflow] at hplain ⊢
    rw [hplain (by simp), mem_optional, behind_eq_some_iff]
    simp [Flow.fallsThrough]
  | call destination =>
    simp only [hflow] at hplain ⊢
    rw [hplain (by simp), List.mem_append, mem_optional, mem_optional, behind_eq_some_iff,
      bind_indexOf_iff hdistinct]
    simp [Flow.fallsThrough, eq_comm, and_or_left]
  | branch destination =>
    simp only [hflow]
    rw [List.mem_append, mem_optional, mem_optional, behind_eq_some_iff,
      bind_indexOf_iff hdistinct]
    constructor
    · intro h
      cases h with
      | inl h =>
        rw [h.1]
        exact .taken (hflow.trans (by rw [h.2])) rfl
      | inr h =>
        rw [h.1]
        exact .passed hflow h.2
    · intro h
      cases h with
      | taken hbranch htarget =>
        rw [hflow, Flow.branch.injEq] at hbranch
        exact Or.inl ⟨rfl, by rw [hbranch, htarget]⟩
      | passed _ hnext => exact Or.inr ⟨rfl, hnext⟩
      | plain hbranch _ => exact absurd hflow (hbranch _)
  | jmp destination =>
    simp only [hflow] at hplain htable ⊢
    rw [hplain (by simp)]
    cases destination with
    | none => simp [Flow.fallsThrough, indexOf_eq_some_iff hdistinct, eq_comm, and_comm]
    | some target =>
      simp only [Option.bind_some, htable (by simp), List.filterMap_nil, List.map_nil]
      have hindex := @indexOf_eq_some_iff block j hdistinct target
      simp only [Flow.fallsThrough, Bool.false_eq_true, false_and, false_or, ← hindex]
      cases indexOf block target with
      | none => simp
      | some k => simp [eq_comm]

theorem way_iff_route (hkeyed : tables.KeyedAtJumps block) {decisions : List Decision} :
    Way (routes block tables) i decisions j ↔ Route block tables i decisions j := by
  constructor
  · intro h
    induction h with
    | here i => exact .here i
    | on hway _ ih => exact .on ((mem_routes_iff hdistinct hkeyed).mp hway) ih
  · intro h
    induction h with
    | here i => exact .here i
    | on htravels _ ih => exact .on ((mem_routes_iff hdistinct hkeyed).mpr htravels) ih

/-- The search comes back, and finds the decisions of a path wherever there is one. -/
theorem dfs_spec (hkeyed : tables.KeyedAtJumps block) (goal : Nat) (first : Fin block.length) :
    ∃ found search, dfs block goal tables (block.length + 1) first ⟨[], []⟩ =
        some (found, search) ∧
      (found = true ↔ ∃ last, (block.get last).address = goal ∧
        ReflTransGen (FlowEdge block tables) first last) ∧
      (found = true → ∃ last, (block.get last).address = goal ∧
        Route block tables first search.noted last) := by
  have hfuel : Fintype.card (Fin block.length) < block.length + 1 := by
    rw [Fintype.card_fin]
    exact Nat.lt_succ_self _
  obtain ⟨found, search, hsearch, hfound, hnoted⟩ := Backtracking.seek_iff (routes block tables)
    (fun i => (block.get i).address == goal) first hfuel
  refine ⟨found, search, hsearch, ?_, ?_⟩
  · rw [hfound]
    constructor
    · intro ⟨decisions, last, hlast, hway⟩
      exact ⟨last, beq_iff_eq.mp hlast, ((way_iff_route hdistinct hkeyed).mp hway).reaches⟩
    · intro ⟨last, hlast, hreaches⟩
      obtain ⟨decisions, hroute⟩ := exists_route hreaches
      exact ⟨decisions, last, beq_iff_eq.mpr hlast, (way_iff_route hdistinct hkeyed).mpr hroute⟩
  · intro h
    obtain ⟨last, hlast, hway⟩ := hnoted h
    exact ⟨last, beq_iff_eq.mp hlast, (way_iff_route hdistinct hkeyed).mp hway⟩

theorem findPath_follows_walk (hkeyed : tables.KeyedAtJumps block) (start goal : Nat) :
    (∀ first, (dfs block goal tables (block.length + 1) first ⟨[], []⟩).isSome = true) ∧
    ((findPath block start goal tables).isSome = true ↔
      ∃ walk, walkFunction block start tables = some walk ∧ goal ∈ walk.reachable) ∧
    ∀ decisions, findPath block start goal tables = some decisions →
      ∃ first last, (block.get first).address = start ∧ (block.get last).address = goal ∧
        Route block tables first decisions last := by
  refine ⟨?_, ?_⟩
  · intro first
    obtain ⟨found, search, hsearch, -⟩ := dfs_spec hdistinct hkeyed goal first
    rw [hsearch]
    rfl
  · cases hfirst : indexOf block start with
    | none => simp [findPath, walkFunction, hfirst]
    | some first =>
      have hstart := indexOf_some hfirst
      obtain ⟨found, search, hsearch, hfound, hnoted⟩ := dfs_spec hdistinct hkeyed goal first
      have hwalk : walkFunction block start tables =
          some (walkLoop tables ⟨⟨[], [], 0, []⟩, [first]⟩) := by
        rw [walkFunction, hfirst, Option.map_some]
      have hpath : findPath block start goal tables =
          if found then some search.noted else none := by
        rw [findPath, hfirst, Option.bind_some, hsearch]
        cases found with
        | false => rfl
        | true => rfl
      refine ⟨?_, ?_⟩
      · have hreachable := mem_reachable_iff hdistinct hwalk goal
        have hfirst' {i : Fin block.length} : (block.get i).address = start ↔ first = i := by
          rw [← indexOf_eq_some_iff hdistinct, hfirst, Option.some.injEq]
        have hsome : (findPath block start goal tables).isSome = true ↔ found = true := by
          rw [hpath]
          cases found with
          | false => simp
          | true => simp
        rw [hsome, hfound]
        simp only [hwalk, Option.some.injEq, exists_eq_left', hreachable,
          Segment.ReachesAddress, Segment.Reaches, hfirst']
      · intro decisions h
        rw [hpath] at h
        cases found with
        | false => cases h
        | true =>
          obtain ⟨last, hlast, hroute⟩ := hnoted rfl
          rw [if_pos rfl, Option.some.injEq] at h
          rw [← h]
          exact ⟨first, last, hstart, hlast, hroute⟩

end Distinct

end

def switch : List Instruction :=
  [⟨0x1000, .branch (some 0x100A)⟩, ⟨0x1002, .jmp none⟩, ⟨0x1004, .branch (some 0x100A)⟩,
    ⟨0x1006, .call (some 0x1004)⟩, ⟨0x1008, .ret⟩, ⟨0x100A, .ret⟩]

def switchTables : JumpTables := ⟨[(0x1002, [0x1006, 0x2000])], none, false⟩

theorem findPath_follows_walk_switch :
    (∀ first, (dfs switch 0x100A switchTables (switch.length + 1) first ⟨[], []⟩).isSome = true) ∧
    ((findPath switch 0x1002 0x100A switchTables).isSome = true ↔
      ∃ walk, walkFunction switch 0x1002 switchTables = some walk ∧ 0x100A ∈ walk.reachable) ∧
    ∀ decisions, findPath switch 0x1002 0x100A switchTables = some decisions →
      ∃ first last, (switch.get first).address = 0x1002 ∧ (switch.get last).address = 0x100A ∧
        Route switch switchTables first decisions last :=
  findPath_follows_walk (by decide) (by
    intro site targets hmem insn hinsn hsite
    rw [switchTables, List.mem_singleton, Prod.mk.injEq] at hmem
    rw [hmem.1] at hsite
    clear hmem
    revert insn
    decide) 0x1002 0x100A

example : findPath switch 0x1002 0x100A switchTables = some [(0x1004, true)] := by decide

end WindbgMcp.Driver
